import Recertia.Lib.Chunks
import Recertia.Lib.JsonText
import Recertia.Lib.PartialMerge
import Recertia.Node.Join

/-! The fan-in of a decomposition: a merge of changed files, the batches of a level, and the levels.
Each of them fails on a conflict among its sources, and else carries the union of their changes. -/
namespace Recertia.Graph

open FileTree (Path Data Tree Functional)
open PartialMerge (Consistent)

/-- `root / f"level-{level}-batch-{batch_no}"` -/
def batchTarget (level batchNo : ℕ) : Path :=
  [fanInDir, "level-" ++ toString level ++ "-batch-" ++ toString batchNo]

def finalTarget : Path := [fanInDir, "final"]

/-- Where the comparison by size and time says that two files are equal, they have the same
bytes. -/
def StatHonest (ctx : NodeContext) (t : Tree) (sources : List Path) : Prop :=
  ∀ source ∈ sources, ∀ p d e, FileTree.read t (source ++ p) = some d →
    FileTree.read t p = some e → ctx.sameStat source p = true → d = e

/-- It is so in every batch of a level. -/
def LevelHonest (ctx : NodeContext) (exclude : List String) (level : ℕ) :
    ℕ → List (List (String × Path)) → Tree → Prop
  | _, [], _ => True
  | batchNo, group :: groups, t =>
    let target := batchTarget level batchNo
    let copied := copyBaseline exclude target t
    StatHonest ctx copied (group.map Prod.snd) ∧
      ∀ merged, mergeChangedSources ctx (group.map Prod.snd) target copied = .ok merged →
        LevelHonest ctx exclude level (batchNo + 1) groups merged

def LevelsHonest (ctx : NodeContext) (exclude : List String) (width : ℕ) :
    ℕ → ℕ → List (String × Path) → Tree → Prop
  | 0, _, _, _ => True
  | fuel + 1, level, sources, t =>
    sources.length ≤ 1 ∨
      (LevelHonest ctx exclude level 0 (sources.toChunks width) t ∧
        ∀ next, fanInLevel ctx exclude level 0 (sources.toChunks width) t = .ok next →
          LevelsHonest ctx exclude width fuel (level + 1) next.sources next.workdir)

/-- The outcome of a merge of changes: a result where they are consistent, and else a conflict. -/
structure Merges {K α : Type} (fs : List (K → Option Data)) (result : Except NodeError α)
    (good : α → Prop) : Prop where
  merged : Consistent fs → ∃ a, result = .ok a ∧ good a
  conflict : ¬ Consistent fs → ∃ p, result = .error (.valueError (conflictDetail p))

section Files

theorem mergeFiles_ok {seen fs : List (Path × Data)} (h : Functional (seen ++ fs)) :
    mergeFiles seen fs = .ok (seen ++ fs) := by
  induction fs generalizing seen with
  | nil => simp [mergeFiles]
  | cons f fs ih =>
    have hagree : ((seen.find? fun g => g.1 == f.1).any fun g => g.2 != f.2) = false := by
      cases hfind : seen.find? fun g => g.1 == f.1 with
      | none => rfl
      | some g =>
        have hpath : g.1 = f.1 := by simpa using List.find?_some hfind
        have hmem : (f.1, g.2) ∈ seen := by
          rw [← hpath]
          exact List.mem_of_find?_eq_some hfind
        have hdata := h f.1 g.2 f.2 (List.mem_append_left _ hmem)
          (List.mem_append_right _ List.mem_cons_self)
        simp [hdata]
    have happend : seen ++ f :: fs = seen ++ [f] ++ fs := by simp
    rw [mergeFiles, hagree, happend]
    simp only [Bool.false_eq_true, if_false]
    apply ih
    rw [← happend]
    exact h

theorem mergeFiles_conflict {seen fs : List (Path × Data)} (hseen : Functional seen)
    (h : ¬ Functional (seen ++ fs)) :
    ∃ p, mergeFiles seen fs = .error (.valueError (conflictDetail p)) := by
  induction fs generalizing seen with
  | nil => exact absurd (by simpa using hseen) h
  | cons f fs ih =>
    unfold mergeFiles
    split
    · exact ⟨f.1, rfl⟩
    · rename_i hagree
      apply ih
      · -- The new file agrees with what was seen of its path.
        have hnew : ∀ d, (f.1, d) ∈ seen → d = f.2 := by
          intro d hd
          by_contra hne
          apply hagree
          cases hfind : seen.find? fun g => g.1 == f.1 with
          | none =>
            have hnone := List.find?_eq_none.mp hfind _ hd
            simp at hnone
          | some g =>
            have hpath : g.1 = f.1 := by simpa using List.find?_some hfind
            have hmem : (f.1, g.2) ∈ seen := by
              rw [← hpath]
              exact List.mem_of_find?_eq_some hfind
            have hdata := hseen f.1 g.2 d hmem hd
            simpa [hdata] using hne
        intro p d e hd he
        rcases List.mem_append.mp hd with hold | hlast
        · rcases List.mem_append.mp he with hother | hlast
          · exact hseen p d e hold hother
          · obtain rfl := List.mem_singleton.mp hlast
            exact hnew d hold
        · obtain rfl := List.mem_singleton.mp hlast
          rcases List.mem_append.mp he with hother | hsame
          · exact (hnew e hother).symm
          · exact (congrArg Prod.snd (List.mem_singleton.mp hsame)).symm
      · simpa using h

/-- The files of a source that differ from the base. -/
def carried (base : Path → Option Data) (t : Tree) (source : Path) : Path → Option Data :=
  fun p => (FileTree.read t (source ++ p)).filter fun d => base p != some d

theorem carried_eq_some {base : Path → Option Data} {t : Tree} {source p : Path} {d : Data} :
    carried base t source p = some d ↔
      FileTree.read t (source ++ p) = some d ∧ base p ≠ some d := by
  rw [carried, Option.filter_eq_some_iff]
  simp

theorem mem_changedFiles {ctx : NodeContext} {t : Tree} {sources : List Path}
    (hhonest : StatHonest ctx t sources) {source : Path} (hsource : source ∈ sources) {p : Path}
    {d : Data} : (p, d) ∈ changedFiles ctx t source ↔
      carried (FileTree.read t) t source p = some d := by
  rw [carried_eq_some, changedFiles, List.mem_filter, FileTree.mem_filesUnder]
  constructor
  · rintro ⟨hread, hchanged⟩
    simp only [Bool.and_eq_true, bne_iff_ne] at hchanged
    exact ⟨hread, hchanged.2⟩
  · rintro ⟨hread, hchanged⟩
    refine ⟨hread, ?_⟩
    simp only [Bool.and_eq_true, Bool.not_eq_true', bne_iff_ne]
    refine ⟨?_, hchanged⟩
    by_contra hsame
    rw [Bool.not_eq_false, Bool.and_eq_true] at hsame
    obtain ⟨e, he⟩ := Option.isSome_iff_exists.mp hsame.1
    have hdata := hhonest source hsource p d e hread he hsame.2
    rw [hdata] at hchanged
    exact hchanged he

/-- What one merge does: it fails on a conflict, and else it writes the union of the changes. -/
theorem mergeChangedSources_spec {ctx : NodeContext} {sources : List Path} {t : Tree}
    (target : Path) (hhonest : StatHonest ctx t sources) :
    let fs := sources.map (carried (FileTree.read t) t)
    Merges fs (mergeChangedSources ctx sources target t) fun merged =>
      (∀ p, FileTree.read merged (target ++ p)
        = (PartialMerge.union fs p).or (FileTree.read t (target ++ p))) ∧
      ∀ q, ¬ target <+: q → FileTree.read merged q = FileTree.read t q := by
  intro fs
  let changed := sources.flatMap fun source => changedFiles ctx t source
  have hmem (p : Path) (d : Data) : (p, d) ∈ changed ↔ ∃ f ∈ fs, f p = some d := by
    simp only [changed, fs, List.mem_flatMap, List.mem_map, exists_exists_and_eq_and]
    constructor
    · rintro ⟨source, hsource, hd⟩
      exact ⟨source, hsource, (mem_changedFiles hhonest hsource).mp hd⟩
    · rintro ⟨source, hsource, hd⟩
      exact ⟨source, hsource, (mem_changedFiles hhonest hsource).mpr hd⟩
  -- Two contents for one path among the changed files are two sources that disagree.
  have hfunctional : Functional changed ↔ Consistent fs := by
    constructor
    · intro h f hf g hg p d e hd he
      exact h p d e ((hmem p d).mpr ⟨f, hf, hd⟩) ((hmem p e).mpr ⟨g, hg, he⟩)
    · intro h p d e hd he
      obtain ⟨f, hf, hfd⟩ := (hmem p d).mp hd
      obtain ⟨g, hg, hge⟩ := (hmem p e).mp he
      exact h f hf g hg p d e hfd hge
  constructor
  · intro hconsistent
    have hchanged := hfunctional.mpr hconsistent
    have hmerge : mergeFiles [] changed = .ok ([] ++ changed) := mergeFiles_ok hchanged
    refine ⟨FileTree.writeAll t target changed, ?_, fun p => ?_, fun q hq => ?_⟩
    · show (mergeFiles [] changed >>= fun merged => pure (FileTree.writeAll t target merged)) = _
      rw [hmerge]
      rfl
    · cases hunion : PartialMerge.union fs p with
      | some d =>
        exact FileTree.read_writeAll_of_mem hchanged
          ((hmem p d).mpr (hconsistent.union_eq_some.mp hunion))
      | none =>
        apply FileTree.read_writeAll_of_ne
        rintro ⟨r, d⟩ hf heq
        have hpath : r = p := List.append_cancel_left heq
        obtain ⟨f, hf, hd⟩ := (hmem r d).mp hf
        rw [hpath, PartialMerge.union_eq_none.mp hunion f hf] at hd
        cases hd
    · apply FileTree.read_writeAll_of_ne
      intro f _ heq
      exact hq ⟨f.1, heq⟩
  · intro hconflict
    have hempty : Functional [] := fun _ _ _ h => absurd h List.not_mem_nil
    have hfailed : ∃ p, mergeFiles [] changed = .error (.valueError (conflictDetail p)) :=
      mergeFiles_conflict hempty fun h => hconflict (hfunctional.mp h)
    obtain ⟨p, hp⟩ := hfailed
    refine ⟨p, ?_⟩
    show (mergeFiles [] changed >>= fun merged => pure (FileTree.writeAll t target merged)) = _
    rw [hp]
    rfl

/-- What the baseline copy takes along. -/
def isBaseline (exclude : List String) (p : Path) : Bool :=
  !FileTree.topIn exclude p && !(p.head?.any fun name => Text.startsWith name ".")

theorem read_copyBaseline {exclude : List String} {target : Path} {t : Tree} {p : Path}
    (hfresh : FileTree.read t (target ++ p) = none) :
    FileTree.read (copyBaseline exclude target t) (target ++ p)
      = if isBaseline exclude p then FileTree.read t p else none := by
  have hmem (d : Data) : (p, d) ∈ (FileTree.files t).filter (fun f => isBaseline exclude f.1) ↔
      FileTree.read t p = some d ∧ isBaseline exclude p = true := by
    rw [List.mem_filter, FileTree.mem_files]
  have hfun : Functional ((FileTree.files t).filter fun f => isBaseline exclude f.1) := by
    intro p d e hd he
    exact FileTree.functional_of_nodup (FileTree.files_nodup t) p d e (List.mem_of_mem_filter hd)
      (List.mem_of_mem_filter he)
  show FileTree.read (FileTree.writeAll t target
    ((FileTree.files t).filter fun f => isBaseline exclude f.1)) (target ++ p) = _
  by_cases htaken : ∃ d, (p, d) ∈ (FileTree.files t).filter fun f => isBaseline exclude f.1
  · obtain ⟨d, hd⟩ := htaken
    rw [FileTree.read_writeAll_of_mem hfun hd, if_pos ((hmem d).mp hd).2, ((hmem d).mp hd).1]
  · rw [FileTree.read_writeAll_of_ne, hfresh]
    · split
      · rename_i hbase
        cases hread : FileTree.read t p with
        | none => rfl
        | some d => exact absurd ⟨d, (hmem d).mpr ⟨hread, hbase⟩⟩ htaken
      · rfl
    · rintro ⟨q, d⟩ hf heq
      have hpath : q = p := List.append_cancel_left heq
      exact htaken ⟨d, hpath ▸ hf⟩

theorem read_copyBaseline_out (exclude : List String) {target : Path} (t : Tree) {q : Path}
    (hq : ¬ target <+: q) :
    FileTree.read (copyBaseline exclude target t) q = FileTree.read t q := by
  apply FileTree.read_writeAll_of_ne
  intro f _ heq
  exact hq ⟨f.1, heq⟩

end Files

section Targets

/-- A path in one of the directories that the fan-in writes. -/
def BelowTarget (p : Path) : Prop :=
  finalTarget <+: p ∨ ∃ level batchNo, batchTarget level batchNo <+: p

theorem head_of_target {target p : Path} (htarget : target.head? = some fanInDir)
    (h : target <+: p) : p.head? = some fanInDir := by
  obtain ⟨rest, rfl⟩ := h
  rw [List.head?_append, htarget]
  rfl

theorem BelowTarget.head {p : Path} (h : BelowTarget p) : p.head? = some fanInDir := by
  rcases h with h | ⟨level, batchNo, h⟩
  · exact head_of_target rfl h
  · exact head_of_target rfl h

theorem not_baseline_of_below (exclude : List String) {p : Path} (h : BelowTarget p) :
    isBaseline exclude p = false := by
  have hdot : Text.startsWith fanInDir "." = true := by decide
  simp [isBaseline, h.head, hdot]

theorem dash_notMem_repr (n : ℕ) : '-' ∉ (Nat.repr n).toList := by
  intro h
  rw [Nat.toList_repr] at h
  exact absurd (Nat.isDigit_of_mem_toDigits (by decide) (by decide) h) (by decide)

/-- Every batch has a directory of its own. -/
theorem batchTarget_inj {level level' batchNo batchNo' : ℕ}
    (h : batchTarget level batchNo = batchTarget level' batchNo') :
    level = level' ∧ batchNo = batchNo' := by
  have hname : "level-" ++ Nat.repr level ++ "-batch-" ++ Nat.repr batchNo
      = "level-" ++ Nat.repr level' ++ "-batch-" ++ Nat.repr batchNo' :=
    (List.cons.inj (List.cons.inj h).2).1
  have hchars := congrArg String.toList hname
  simp only [String.toList_append, List.append_assoc] at hchars
  have htail := List.append_cancel_left hchars
  obtain ⟨hlevel, hrest⟩ :=
    Text.append_sep_inj (dash_notMem_repr level) (dash_notMem_repr level') htail
  have hbatch : "batch-".toList ++ (Nat.repr batchNo).toList
      = "batch-".toList ++ (Nat.repr batchNo').toList := hrest
  exact ⟨Json.natRepr_inj (String.toList_inj.mp hlevel),
    Json.natRepr_inj (String.toList_inj.mp (List.append_cancel_left hbatch))⟩

theorem batchTarget_ne_final (level batchNo : ℕ) : batchTarget level batchNo ≠ finalTarget := by
  intro h
  have hname : "level-" ++ Nat.repr level ++ "-batch-" ++ Nat.repr batchNo = "final" :=
    (List.cons.inj (List.cons.inj h).2).1
  have hchars := congrArg String.toList hname
  simp only [String.toList_append, List.append_assoc] at hchars
  exact absurd (List.cons.inj hchars).1 (by decide)

/-- Two directories of the fan-in are side by side. -/
theorem target_eq_of_common_path {first second p : Path} (hfirst : first.length = 2)
    (hsecond : second.length = 2) (h : first <+: second ++ p) : first = second :=
  List.IsPrefix.eq_of_length_le
    (List.prefix_of_prefix_length_le h (List.prefix_append second p) (by omega)) (by omega)

/-- A source whose files are complete: a branch workspace, or a batch of an earlier level. -/
def IsSource (level : ℕ) (source : Path) : Prop :=
  (∃ id, id ≠ fanInDir ∧ source = [id]) ∨
    ∃ earlier batchNo, earlier < level ∧ source = batchTarget earlier batchNo

theorem IsSource.not_below_batch {level later batchNo : ℕ} {source p : Path}
    (h : IsSource level source) (hlater : level ≤ later) :
    ¬ batchTarget later batchNo <+: source ++ p := by
  intro hbelow
  rcases h with ⟨id, hid, rfl⟩ | ⟨earlier, first, hlt, rfl⟩
  · exact hid (Option.some.inj (head_of_target rfl hbelow))
  · have hsame := batchTarget_inj (target_eq_of_common_path rfl rfl hbelow)
    omega

theorem IsSource.not_below_final {level : ℕ} {source p : Path} (h : IsSource level source) :
    ¬ finalTarget <+: source ++ p := by
  intro hbelow
  rcases h with ⟨id, hid, rfl⟩ | ⟨earlier, first, -, rfl⟩
  · exact hid (Option.some.inj (head_of_target rfl hbelow))
  · exact batchTarget_ne_final earlier first (target_eq_of_common_path rfl rfl hbelow).symm

end Targets

section Levels

variable {base : Path → Option Data} {exclude : List String} {ctx : NodeContext}

/-- The paths outside the directories that the fan-in writes, and those inside. -/
abbrev PlainPath := {p : Path // ¬ BelowTarget p}

abbrev HiddenPath := {p : Path // BelowTarget p}

variable {hidden : HiddenPath → Option Data}

/-- The tree of a fan-in ahead of a batch: the parent as it was, and nothing yet in the
directories of this batch and the later ones. -/
structure Ahead (base : Path → Option Data) (level batchNo : ℕ) (t : Tree) : Prop where
  parent : ∀ p, ¬ BelowTarget p → FileTree.read t p = base p
  batches : ∀ later next p, level < later ∨ (later = level ∧ batchNo ≤ next) →
    FileTree.read t (batchTarget later next ++ p) = none
  final : ∀ p, FileTree.read t (finalTarget ++ p) = none

/-- What the sources have at a hidden path is what `hidden` says. -/
def Agrees (hidden : HiddenPath → Option Data) (t : Tree) (sources : List (String × Path)) : Prop :=
  ∀ s ∈ sources, ∀ (p : HiddenPath) d, FileTree.read t (s.2 ++ p) = some d → hidden p = some d

/-- The changes that a list of sources carries. -/
def carriedBy (base : Path → Option Data) (t : Tree) (sources : List (String × Path)) :
    List (PlainPath → Option Data) := sources.map fun s p => carried base t s.2 p

/-- What stands in the directory of a batch when it has been merged. -/
structure Merged (base : Path → Option Data) (hidden : HiddenPath → Option Data)
    (exclude : List String) (fs : List (PlainPath → Option Data)) (target : Path)
    (t merged : Tree) : Prop where
  content : ∀ p : PlainPath, FileTree.read merged (target ++ p)
    = (PartialMerge.union fs p).or (if isBaseline exclude p then base p else none)
  agrees : ∀ (p : HiddenPath) d, FileTree.read merged (target ++ p) = some d → hidden p = some d
  outside : ∀ q, ¬ target <+: q → FileTree.read merged q = FileTree.read t q

/-- Where the sources agree on the hidden paths, a conflict is one at another path. -/
theorem consistent_carriedBy {t : Tree} {group : List (String × Path)} {u : Path → Option Data}
    (hagrees : Agrees hidden t group) (hbase : ∀ p, ¬ BelowTarget p → u p = base p) :
    Consistent ((group.map Prod.snd).map (carried u t)) ↔ Consistent (carriedBy base t group) := by
  have hplain (source : Path) (p : PlainPath) : carried u t source p = carried base t source p := by
    rw [carried, carried, hbase p p.2]
  constructor
  · intro h f hf g hg p d e hd he
    obtain ⟨s, hs, rfl⟩ := List.mem_map.mp hf
    obtain ⟨r, hr, rfl⟩ := List.mem_map.mp hg
    apply h _ (List.mem_map_of_mem (List.mem_map_of_mem hs)) _
      (List.mem_map_of_mem (List.mem_map_of_mem hr)) p d e
    · rw [hplain]
      exact hd
    · rw [hplain]
      exact he
  · intro h f hf g hg p d e hd he
    rw [List.map_map] at hf hg
    obtain ⟨s, hs, rfl⟩ := List.mem_map.mp hf
    obtain ⟨r, hr, rfl⟩ := List.mem_map.mp hg
    by_cases hbelow : BelowTarget p
    · have hfirst := hagrees s hs ⟨p, hbelow⟩ d (carried_eq_some.mp hd).1
      have hsecond := hagrees r hr ⟨p, hbelow⟩ e (carried_eq_some.mp he).1
      exact Option.some.inj (hfirst.symm.trans hsecond)
    · apply h _ (List.mem_map_of_mem hs) _ (List.mem_map_of_mem hr) ⟨p, hbelow⟩ d e
      · rw [← hplain]
        exact hd
      · rw [← hplain]
        exact he

theorem union_carriedBy {t : Tree} (group : List (String × Path)) {u : Path → Option Data}
    (hbase : ∀ p, ¬ BelowTarget p → u p = base p) (p : PlainPath) :
    PartialMerge.union ((group.map Prod.snd).map (carried u t)) p
      = PartialMerge.union (carriedBy base t group) p := by
  have hcarried : carriedBy base t group
      = ((group.map Prod.snd).map (carried u t)).map fun f => f ∘ Subtype.val := by
    rw [List.map_map, List.map_map]
    apply List.map_congr_left
    intro s _
    funext p
    show carried base t s.2 p = carried u t s.2 p
    rw [carried, carried, hbase p p.2]
  rw [hcarried]
  exact (PartialMerge.union_comp _ Subtype.val p).symm

/-- A batch fails on a conflict among its sources, and else merges their changes. -/
theorem batch_spec {t : Tree} {target : Path} {group : List (String × Path)}
    (hparent : ∀ p, ¬ BelowTarget p → FileTree.read t p = base p)
    (htarget : ∀ p, target <+: p → BelowTarget p)
    (hfresh : ∀ p, FileTree.read t (target ++ p) = none)
    (hsources : ∀ s ∈ group, ∀ p, ¬ target <+: s.2 ++ p) (hagrees : Agrees hidden t group)
    (hhonest : StatHonest ctx (copyBaseline exclude target t) (group.map Prod.snd)) :
    Merges (carriedBy base t group)
      (mergeChangedSources ctx (group.map Prod.snd) target (copyBaseline exclude target t))
      (Merged base hidden exclude (carriedBy base t group) target t) := by
  -- The copy stands in the target only: the sources and the parent stay as they were.
  have hcopied (source : Path) (hsource : source ∈ group.map Prod.snd) :
      carried (FileTree.read (copyBaseline exclude target t)) (copyBaseline exclude target t) source
        = carried (FileTree.read (copyBaseline exclude target t)) t source := by
    obtain ⟨s, hs, rfl⟩ := List.mem_map.mp hsource
    funext p
    rw [carried, carried, read_copyBaseline_out exclude t (hsources s hs p)]
  have hbase (p : Path) (hp : ¬ BelowTarget p) :
      FileTree.read (copyBaseline exclude target t) p = base p := by
    rw [read_copyBaseline_out exclude t fun h => hp (htarget p h), hparent p hp]
  obtain ⟨hok, hconflict⟩ := mergeChangedSources_spec target hhonest
  rw [List.map_congr_left hcopied, consistent_carriedBy hagrees hbase] at hok hconflict
  refine ⟨fun hconsistent => ?_, hconflict⟩
  obtain ⟨merged, hmerged, hcontent, houtside⟩ := hok hconsistent
  refine ⟨merged, hmerged, fun p => ?_, fun p d hd => ?_, fun q hq => ?_⟩
  · rw [hcontent, read_copyBaseline (hfresh p), union_carriedBy group hbase, hparent p p.2]
  · -- The baseline has no hidden path, so a source has given this file.
    rw [hcontent, read_copyBaseline (hfresh p), not_baseline_of_below exclude p.2,
      if_neg Bool.false_ne_true, Option.or_none] at hd
    obtain ⟨f, hf, hfd⟩ := PartialMerge.exists_of_union hd
    rw [List.map_map] at hf
    obtain ⟨s, hs, rfl⟩ := List.mem_map.mp hf
    exact hagrees s hs p d (carried_eq_some.mp hfd).1
  · rw [houtside q hq, read_copyBaseline_out exclude t hq]

theorem carried_union {t : Tree} {group : List (String × Path)} {p : PlainPath} {d : Data}
    (h : PartialMerge.union (carriedBy base t group) p = some d) : base p ≠ some d := by
  obtain ⟨f, hf, hd⟩ := PartialMerge.exists_of_union h
  obtain ⟨s, _, rfl⟩ := List.mem_map.mp hf
  exact (carried_eq_some.mp hd).2

/-- A merged batch carries the changes of its sources on, and nothing else. -/
theorem Merged.carries {t merged : Tree} {group : List (String × Path)} {target : Path}
    (h : Merged base hidden exclude (carriedBy base t group) target t merged) :
    (fun p : PlainPath => carried base merged target p)
      = PartialMerge.union (carriedBy base t group) := by
  funext p
  rw [carried, h.content]
  cases hunion : PartialMerge.union (carriedBy base t group) p with
  | some d =>
    have hchanged := carried_union hunion
    rw [Option.some_or, Option.filter_some, if_pos (by simpa using hchanged)]
  | none =>
    rw [Option.none_or]
    split
    · -- A copy of the parent's file is no change.
      cases hbase : base p with
      | none => rfl
      | some d => simp
    · rfl

theorem carried_congr {t u : Tree} {source : Path}
    (h : ∀ p, FileTree.read u (source ++ p) = FileTree.read t (source ++ p)) :
    carried base u source = carried base t source := by
  funext p
  rw [carried, carried, h]

theorem carriedBy_congr {t u : Tree} {sources : List (String × Path)}
    (h : ∀ s ∈ sources, ∀ p, FileTree.read u (s.2 ++ p) = FileTree.read t (s.2 ++ p)) :
    carriedBy base u sources = carriedBy base t sources := by
  apply List.map_congr_left
  intro s hs
  rw [carried_congr (h s hs)]

theorem Agrees.congr {t u : Tree} {sources : List (String × Path)}
    (hagrees : Agrees hidden t sources)
    (h : ∀ s ∈ sources, ∀ p, FileTree.read u (s.2 ++ p) = FileTree.read t (s.2 ++ p)) :
    Agrees hidden u sources := by
  intro s hs p d hd
  rw [h s hs p] at hd
  exact hagrees s hs p d hd

/-- One batch of a level leaves the tree ahead of the next one. -/
theorem Ahead.next {level batchNo : ℕ} {t merged : Tree} {fs : List (PlainPath → Option Data)}
    (h : Ahead base level batchNo t)
    (hmerged : Merged base hidden exclude fs (batchTarget level batchNo) t merged) :
    Ahead base level (batchNo + 1) merged where
  parent p hp := by
    rw [hmerged.outside p fun hbelow => hp (Or.inr ⟨level, batchNo, hbelow⟩)]
    exact h.parent p hp
  batches later next p hlater := by
    have hother : ¬ batchTarget level batchNo <+: batchTarget later next ++ p := by
      intro hbelow
      have hsame := batchTarget_inj (target_eq_of_common_path rfl rfl hbelow)
      omega
    rw [hmerged.outside _ hother]
    exact h.batches later next p (by omega)
  final p := by
    rw [hmerged.outside _ fun hbelow =>
      batchTarget_ne_final level batchNo (target_eq_of_common_path rfl rfl hbelow)]
    exact h.final p

/-- What a level leaves: a batch for each group, which carries the changes of the group. -/
structure LevelDone (base : Path → Option Data) (hidden : HiddenPath → Option Data)
    (level batchNo : ℕ) (groups : List (List (String × Path))) (t : Tree)
    (done : FanIn) : Prop where
  carries : carriedBy base done.workdir done.sources
    = groups.map fun group => PartialMerge.union (carriedBy base t group)
  targets : ∀ s ∈ done.sources, ∃ next, s.2 = batchTarget level next
  agrees : Agrees hidden done.workdir done.sources
  ahead : Ahead base (level + 1) 0 done.workdir
  outside : ∀ q, (∀ next, batchNo ≤ next → ¬ batchTarget level next <+: q) →
    FileTree.read done.workdir q = FileTree.read t q

/-- A level goes on behind a batch that it could merge. -/
theorem fanInLevel_merged {level batchNo : ℕ} {group : List (String × Path)} {t merged : Tree}
    (groups : List (List (String × Path)))
    (h : mergeChangedSources ctx (group.map Prod.snd) (batchTarget level batchNo)
      (copyBaseline exclude (batchTarget level batchNo) t) = .ok merged) :
    fanInLevel ctx exclude level batchNo (group :: groups) t
      = (fanInLevel ctx exclude level (batchNo + 1) groups merged).map fun rest =>
        ⟨("+".intercalate (group.map Prod.fst), batchTarget level batchNo) :: rest.sources,
          group.map Prod.fst :: rest.batches, rest.workdir⟩ := by
  show (mergeChangedSources ctx (group.map Prod.snd) (batchTarget level batchNo)
    (copyBaseline exclude (batchTarget level batchNo) t) >>= _) = _
  rw [h]
  show (fanInLevel ctx exclude level (batchNo + 1) groups merged >>= _) = _
  cases fanInLevel ctx exclude level (batchNo + 1) groups merged with
  | error e => rfl
  | ok rest => rfl

theorem fanInLevel_failed {level batchNo : ℕ} {group : List (String × Path)} {t : Tree}
    {e : NodeError} (groups : List (List (String × Path)))
    (h : mergeChangedSources ctx (group.map Prod.snd) (batchTarget level batchNo)
      (copyBaseline exclude (batchTarget level batchNo) t) = .error e) :
    fanInLevel ctx exclude level batchNo (group :: groups) t = .error e := by
  show (mergeChangedSources ctx (group.map Prod.snd) (batchTarget level batchNo)
    (copyBaseline exclude (batchTarget level batchNo) t) >>= _) = _
  rw [h]
  rfl

/-- A level is done when its first batch is and then its other ones. -/
theorem LevelDone.cons {level batchNo : ℕ} {group : List (String × Path)}
    {groups : List (List (String × Path))} {t merged : Tree} {rest : FanIn} {id : String}
    {batches : List (List String)}
    (h : LevelDone base hidden level (batchNo + 1) groups merged rest)
    (hdone : Merged base hidden exclude (carriedBy base t group) (batchTarget level batchNo) t
      merged)
    (hothers : ∀ other ∈ groups, carriedBy base merged other = carriedBy base t other) :
    LevelDone base hidden level batchNo (group :: groups) t
      ⟨(id, batchTarget level batchNo) :: rest.sources, batches, rest.workdir⟩ := by
  have hstays (p : Path) : FileTree.read rest.workdir (batchTarget level batchNo ++ p)
      = FileTree.read merged (batchTarget level batchNo ++ p) := by
    apply h.outside
    intro next hnext hbelow
    have hsame := batchTarget_inj (target_eq_of_common_path rfl rfl hbelow)
    omega
  refine ⟨?_, fun s hs => ?_, fun s hs p d hd => ?_, h.ahead, fun q hq => ?_⟩
  · show (fun p : PlainPath => carried base rest.workdir (batchTarget level batchNo) p) ::
      carriedBy base rest.workdir rest.sources = _
    rw [carried_congr hstays, hdone.carries, h.carries, List.map_cons]
    congr 1
    exact List.map_congr_left fun other hother => by rw [hothers other hother]
  · rcases List.mem_cons.mp hs with rfl | hs
    · exact ⟨batchNo, rfl⟩
    · exact h.targets s hs
  · rcases List.mem_cons.mp hs with rfl | hs
    · rw [hstays p] at hd
      exact hdone.agrees p d hd
    · exact h.agrees s hs p d hd
  · rw [h.outside q fun next hnext => hq next (by omega)]
    exact hdone.outside q (hq batchNo le_rfl)

theorem fanInLevel_spec {level batchNo : ℕ} {groups : List (List (String × Path))} {t : Tree}
    (hahead : Ahead base level batchNo t)
    (hsources : ∀ group ∈ groups, ∀ s ∈ group, IsSource level s.2)
    (hagrees : ∀ group ∈ groups, Agrees hidden t group)
    (hhonest : LevelHonest ctx exclude level batchNo groups t) :
    ((∀ group ∈ groups, Consistent (carriedBy base t group)) →
      ∃ done, fanInLevel ctx exclude level batchNo groups t = .ok done ∧
        LevelDone base hidden level batchNo groups t done) ∧
    ((∃ group ∈ groups, ¬ Consistent (carriedBy base t group)) →
      ∃ p, fanInLevel ctx exclude level batchNo groups t
        = .error (.valueError (conflictDetail p))) := by
  induction groups generalizing batchNo t with
  | nil =>
    constructor
    · intro _
      refine ⟨⟨[], [], t⟩, rfl, rfl, ?_, ?_, ⟨hahead.parent, ?_, hahead.final⟩, fun _ _ => rfl⟩
      · exact fun s hs => absurd hs List.not_mem_nil
      · exact fun s hs => absurd hs List.not_mem_nil
      · exact fun later next p hlater => hahead.batches later next p (by omega)
    · rintro ⟨group, hgroup, -⟩
      exact absurd hgroup List.not_mem_nil
  | cons group groups ih =>
    have hgroup := hsources group List.mem_cons_self
    have hbatch := batch_spec hahead.parent (fun p hp => Or.inr ⟨level, batchNo, hp⟩)
      (fun p => hahead.batches level batchNo p (Or.inr ⟨rfl, le_rfl⟩))
      (fun s hs p => (hgroup s hs).not_below_batch le_rfl)
      (hagrees group List.mem_cons_self) hhonest.1
    by_cases hconsistent : Consistent (carriedBy base t group)
    · obtain ⟨merged, hmerged, hdone⟩ := hbatch.1 hconsistent
      -- The sources of the other groups stay as they were.
      have hkept (other : List (String × Path)) (hother : other ∈ groups) (s : String × Path)
          (hs : s ∈ other) (p : Path) :
          FileTree.read merged (s.2 ++ p) = FileTree.read t (s.2 ++ p) := by
        apply hdone.outside
        exact (hsources other (List.mem_cons_of_mem _ hother) s hs).not_below_batch le_rfl
      have hothers (other : List (String × Path)) (hother : other ∈ groups) :
          carriedBy base merged other = carriedBy base t other :=
        carriedBy_congr (hkept other hother)
      have hrest := ih (hahead.next hdone)
        (fun other hother => hsources other (List.mem_cons_of_mem _ hother))
        (fun other hother =>
          (hagrees other (List.mem_cons_of_mem _ hother)).congr (hkept other hother))
        (hhonest.2 merged hmerged)
      constructor
      · intro hall
        obtain ⟨rest, hok, hafter⟩ := hrest.1 fun other hother => by
          rw [hothers other hother]
          exact hall other (List.mem_cons_of_mem _ hother)
        exact ⟨_, by rw [fanInLevel_merged groups hmerged, hok]; rfl, hafter.cons hdone hothers⟩
      · rintro ⟨other, hother, hconflict⟩
        have hmem : other ∈ groups := by
          rcases List.mem_cons.mp hother with rfl | hmem
          · exact absurd hconsistent hconflict
          · exact hmem
        obtain ⟨p, hp⟩ := hrest.2 ⟨other, hmem, by rw [hothers other hmem]; exact hconflict⟩
        exact ⟨p, by rw [fanInLevel_merged groups hmerged, hp]; rfl⟩
    · obtain ⟨p, hp⟩ := hbatch.2 hconsistent
      exact ⟨fun hall => absurd (hall group List.mem_cons_self) hconsistent,
        fun _ => ⟨p, fanInLevel_failed groups hp⟩⟩

/-- What a fan-in leaves: at most one source, which carries the changes of all of them. -/
structure FannedIn (base : Path → Option Data) (hidden : HiddenPath → Option Data) (t : Tree)
    (sources : List (String × Path)) (done : FanIn) : Prop where
  single : done.sources.length ≤ 1
  carries : PartialMerge.union (carriedBy base done.workdir done.sources)
    = PartialMerge.union (carriedBy base t sources)
  complete : ∀ s ∈ done.sources, ∃ level, IsSource level s.2
  agrees : Agrees hidden done.workdir done.sources
  parent : ∀ p, ¬ BelowTarget p → FileTree.read done.workdir p = base p
  final : ∀ p, FileTree.read done.workdir (finalTarget ++ p) = none

theorem carriedBy_flatten (t : Tree) (groups : List (List (String × Path))) :
    (groups.map (carriedBy base t)).flatten = carriedBy base t groups.flatten :=
  List.map_flatten.symm

/-- A conflict stands inside a group, or between the unions of two groups. -/
theorem consistent_groups (t : Tree) (groups : List (List (String × Path))) :
    Consistent (carriedBy base t groups.flatten) ↔
      (∀ group ∈ groups, Consistent (carriedBy base t group)) ∧
        Consistent (groups.map fun group => PartialMerge.union (carriedBy base t group)) := by
  rw [← carriedBy_flatten, PartialMerge.consistent_flatten, List.map_map, List.forall_mem_map]
  rfl

theorem union_groups (t : Tree) (groups : List (List (String × Path))) :
    PartialMerge.union (groups.map fun group => PartialMerge.union (carriedBy base t group))
      = PartialMerge.union (carriedBy base t groups.flatten) := by
  rw [← carriedBy_flatten, ← PartialMerge.union_flatten, List.map_map]
  rfl

theorem fanInLevels_single {level : ℕ} {sources : List (String × Path)} {t : Tree} (width fuel : ℕ)
    (h : sources.length ≤ 1) :
    fanInLevels ctx exclude width fuel level sources t = .ok ⟨sources, [], t⟩ := by
  cases fuel with
  | zero => rfl
  | succ fuel => rw [fanInLevels, if_pos h]

theorem fanInLevels_spec_single (width fuel : ℕ) {level : ℕ} {sources : List (String × Path)}
    {t : Tree} (hahead : Ahead base level 0 t) (hsources : ∀ s ∈ sources, IsSource level s.2)
    (hagrees : Agrees hidden t sources) (hlength : sources.length ≤ 1) :
    Merges (carriedBy base t sources) (fanInLevels ctx exclude width fuel level sources t)
      (FannedIn base hidden t sources) := by
  have hconsistent : Consistent (carriedBy base t sources) := by
    apply PartialMerge.consistent_of_length_le_one
    rw [carriedBy, List.length_map]
    exact hlength
  refine ⟨fun _ => ?_, fun hconflict => absurd hconsistent hconflict⟩
  exact ⟨⟨sources, [], t⟩, fanInLevels_single width fuel hlength, hlength, rfl,
    fun s hs => ⟨level, hsources s hs⟩, hagrees, hahead.parent, hahead.final⟩

/-- The fan-in goes on behind a level that it could merge. -/
theorem fanInLevels_level {width fuel level : ℕ} {sources : List (String × Path)} {t : Tree}
    (h : ¬ sources.length ≤ 1) :
    fanInLevels ctx exclude width (fuel + 1) level sources t
      = (fanInLevel ctx exclude level 0 (sources.toChunks width) t).bind fun next =>
        (fanInLevels ctx exclude width fuel (level + 1) next.sources next.workdir).map fun rest =>
          { rest with batches := next.batches ++ rest.batches } := by
  rw [fanInLevels, if_neg h]
  cases fanInLevel ctx exclude level 0 (sources.toChunks width) t with
  | error e => rfl
  | ok next =>
    show (fanInLevels ctx exclude width fuel (level + 1) next.sources next.workdir >>= _) = _
    cases hrest : fanInLevels ctx exclude width fuel (level + 1) next.sources next.workdir with
    | error e => simp [Except.bind, Except.map, hrest, bind]
    | ok rest => simp [Except.bind, Except.map, hrest, bind, pure, Except.pure]

/-- The fan-in fails on a conflict anywhere among its sources, and else merges all of them: by
induction on the levels, where the unions of the groups stand for their sources. -/
theorem fanInLevels_spec {width fuel level : ℕ} {sources : List (String × Path)} {t : Tree}
    (hahead : Ahead base level 0 t) (hsources : ∀ s ∈ sources, IsSource level s.2)
    (hagrees : Agrees hidden t sources) (hwidth : 2 ≤ width ∨ sources.length ≤ 1)
    (hfuel : sources.length ≤ fuel + 1)
    (hhonest : LevelsHonest ctx exclude width fuel level sources t) :
    Merges (carriedBy base t sources) (fanInLevels ctx exclude width fuel level sources t)
      (FannedIn base hidden t sources) := by
  induction fuel generalizing level sources t with
  | zero => exact fanInLevels_spec_single width 0 hahead hsources hagrees hfuel
  | succ fuel ih =>
    by_cases hlength : sources.length ≤ 1
    · exact fanInLevels_spec_single width (fuel + 1) hahead hsources hagrees hlength
    · have hwide : 2 ≤ width := hwidth.resolve_right hlength
      obtain ⟨hlevelHonest, hlaterHonest⟩ := hhonest.resolve_left hlength
      have hflatten : (sources.toChunks width).flatten = sources :=
        Chunks.flatten_toChunks width sources
      have hmem (group : List (String × Path)) (hgroup : group ∈ sources.toChunks width)
          (s : String × Path) (hs : s ∈ group) : s ∈ sources := by
        rw [← hflatten]
        exact List.mem_flatten.mpr ⟨group, hgroup, hs⟩
      have hlevel := fanInLevel_spec hahead
        (fun group hgroup s hs => hsources s (hmem group hgroup s hs))
        (fun group hgroup s hs => hagrees s (hmem group hgroup s hs))
        hlevelHonest
      have hsplit := @consistent_groups base t (sources.toChunks width)
      have hunion := @union_groups base t (sources.toChunks width)
      rw [hflatten] at hsplit hunion
      by_cases hgroups : ∀ group ∈ sources.toChunks width, Consistent (carriedBy base t group)
      · obtain ⟨next, hnext, hdone⟩ := hlevel.1 hgroups
        -- A level leaves one source for each chunk, which are fewer than the sources.
        have hcount : next.sources.length = (sources.toChunks width).length := by
          have hlengths := congrArg List.length hdone.carries
          simpa [carriedBy] using hlengths
        have hfewer : (sources.toChunks width).length < sources.length :=
          Chunks.length_toChunks_lt hwide (by omega)
        have hlater := ih hdone.ahead
          (fun s hs => by
            obtain ⟨batchNo, hbatch⟩ := hdone.targets s hs
            exact Or.inr ⟨level, batchNo, by omega, hbatch⟩)
          hdone.agrees (Or.inl hwide) (by omega) (hlaterHonest next hnext)
        rw [hdone.carries] at hlater
        rw [fanInLevels_level hlength, hnext]
        constructor
        · intro hconsistent
          obtain ⟨done, hok, hfanned⟩ := hlater.1 (hsplit.mp hconsistent).2
          refine ⟨{ done with batches := next.batches ++ done.batches }, ?_, hfanned.single, ?_,
            hfanned.complete, hfanned.agrees, hfanned.parent, hfanned.final⟩
          · show (fanInLevels ctx exclude width fuel (level + 1) next.sources
              next.workdir).map _ = _
            rw [hok]
            rfl
          · rw [← hunion, ← hdone.carries]
            exact hfanned.carries
        · intro hconflict
          obtain ⟨p, hp⟩ := hlater.2 fun h => hconflict (hsplit.mpr ⟨hgroups, h⟩)
          refine ⟨p, ?_⟩
          show (fanInLevels ctx exclude width fuel (level + 1) next.sources next.workdir).map _ = _
          rw [hp]
          rfl
      · have hconflict : ∃ group ∈ sources.toChunks width,
            ¬ Consistent (carriedBy base t group) := by
          by_contra hnone
          exact hgroups fun group hgroup => by
            by_contra hne
            exact hnone ⟨group, hgroup, hne⟩
        obtain ⟨p, hp⟩ := hlevel.2 hconflict
        refine ⟨fun hconsistent => absurd (hsplit.mp hconsistent).1 hgroups, fun _ => ⟨p, ?_⟩⟩
        rw [fanInLevels_level hlength, hp]
        rfl

end Levels

end Recertia.Graph
