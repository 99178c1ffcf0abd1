import Recertia.Node.FanInMerge

/-! The layered reduction of a decomposition: merging the branches in batches, level by level,
against merging all of them at once. -/
namespace Recertia.Graph

open FileTree (Path Data Tree Functional)
open PartialMerge (Consistent)

def decompositionSources (branches : List BranchState) : List (String × Path) :=
  (branches.filter fun b => b.kind == .decomposition).map fun b => (b.branchId, b.workspaceRef)

/-- The width of one merge of all branches. -/
def directWidth (branches : List BranchState) : ℕ := max 1 (decompositionSources branches).length

/-- `_materialize_decomposition` with batches of any width. -/
def materializeBy (width : ℕ) (ctx : NodeContext) (branches : List BranchState) (t : Tree) :
    Except NodeError (Tree × List (List String)) := do
  let exclude := excluded branches
  let sources := decompositionSources branches
  let fanIn ← fanInLevels ctx exclude width sources.length 0 sources
    (FileTree.removeTree t [fanInDir])
  let merged ← mergeChangedSources ctx ((fanIn.sources.take 1).map Prod.snd) finalTarget
    (copyBaseline exclude finalTarget fanIn.workdir)
  return (materializePortfolioWinner exclude finalTarget merged, fanIn.batches)

/-- Equal size and time mean equal bytes in every merge of a fan-in. -/
def FanInHonest (width : ℕ) (ctx : NodeContext) (branches : List BranchState) (t : Tree) : Prop :=
  let exclude := excluded branches
  let sources := decompositionSources branches
  LevelsHonest ctx exclude width sources.length 0 sources (FileTree.removeTree t [fanInDir]) ∧
    ∀ fanIn, fanInLevels ctx exclude width sources.length 0 sources
        (FileTree.removeTree t [fanInDir]) = .ok fanIn →
      StatHonest ctx (copyBaseline exclude finalTarget fanIn.workdir)
        ((fanIn.sources.take 1).map Prod.snd)

section Reduction

/-- Each branch works in its own directory of the workdir. -/
def OwnWorkspaces (branches : List BranchState) : Prop :=
  ∀ b ∈ branches, b.workspaceRef = [b.branchId] ∧ b.branchId ≠ fanInDir

/-- The parent without what an earlier fan-in left. -/
def parentFiles (t : Tree) : Path → Option Data := FileTree.read (FileTree.removeTree t [fanInDir])

/-- What the branches change, each against the parent. -/
def branchChanges (branches : List BranchState) (t : Tree) : List (PlainPath → Option Data) :=
  carriedBy (parentFiles t) (FileTree.removeTree t [fanInDir]) (decompositionSources branches)

theorem OwnWorkspaces.source {branches : List BranchState} (h : OwnWorkspaces branches)
    {s : String × Path} (hs : s ∈ decompositionSources branches) :
    ∃ id, id ≠ fanInDir ∧ s.2 = [id] := by
  obtain ⟨b, hb, rfl⟩ := List.mem_map.mp hs
  obtain ⟨hworkspace, hid⟩ := h b (List.mem_of_mem_filter hb)
  exact ⟨b.branchId, hid, hworkspace⟩

theorem read_materializePortfolioWinner (exclude : List String) (workspace : Path) (t : Tree)
    (p : Path) : FileTree.read (materializePortfolioWinner exclude workspace t) p
      = if FileTree.topIn exclude p then FileTree.read t p
        else (FileTree.read t (workspace ++ p)).or (FileTree.read t p) := by
  have hmem (d : Data) : (p, d) ∈ (FileTree.filesUnder t workspace).filter
        (fun f => !FileTree.topIn exclude f.1) ↔
      FileTree.read t (workspace ++ p) = some d ∧ FileTree.topIn exclude p = false := by
    rw [List.mem_filter, FileTree.mem_filesUnder]
    simp
  have hfun : Functional ((FileTree.filesUnder t workspace).filter
      fun f => !FileTree.topIn exclude f.1) := by
    intro q d e hd he
    have hfirst := FileTree.mem_filesUnder.mp (List.mem_of_mem_filter hd)
    have hsecond := FileTree.mem_filesUnder.mp (List.mem_of_mem_filter he)
    exact Option.some.inj (hfirst.symm.trans hsecond)
  have hkept (h : ∀ d, (p, d) ∉ (FileTree.filesUnder t workspace).filter
      fun f => !FileTree.topIn exclude f.1) :
      FileTree.read (materializePortfolioWinner exclude workspace t) p = FileTree.read t p := by
    apply FileTree.read_writeAll_of_ne
    rintro ⟨q, d⟩ hf rfl
    exact h d hf
  split
  · rename_i htop
    apply hkept
    intro d hd
    have hout := ((hmem d).mp hd).2
    rw [htop] at hout
    cases hout
  · rename_i htop
    cases hread : FileTree.read t (workspace ++ p) with
    | some d =>
      have hwritten := (hmem d).mpr ⟨hread, by simpa using htop⟩
      exact FileTree.read_writeAll_of_mem hfun hwritten
    | none =>
      rw [Option.none_or]
      apply hkept
      intro d hd
      rw [((hmem d).mp hd).1] at hread
      cases hread

/-- The directory of an earlier fan-in is cleared, and the parent is as it was. -/
theorem ahead_removeTree (t : Tree) :
    Ahead (parentFiles t) 0 0 (FileTree.removeTree t [fanInDir]) := by
  have hremoved (p : Path) (hp : p.head? = some fanInDir) :
      FileTree.read (FileTree.removeTree t [fanInDir]) p = none := by
    rw [FileTree.read_removeTree, if_pos]
    match p, hp with
    | name :: rest, hp =>
      rw [Option.some.inj hp]
      exact List.prefix_append [fanInDir] rest
  exact ⟨fun _ _ => rfl, fun _ _ _ _ => hremoved _ rfl, fun _ => hremoved _ rfl⟩

theorem OwnWorkspaces.read_source {branches : List BranchState} (h : OwnWorkspaces branches)
    (t : Tree) {s : String × Path} (hs : s ∈ decompositionSources branches) (p : Path) :
    FileTree.read (FileTree.removeTree t [fanInDir]) (s.2 ++ p) = FileTree.read t (s.2 ++ p) := by
  obtain ⟨id, hid, hsource⟩ := h.source hs
  rw [FileTree.read_removeTree, if_neg]
  intro hbelow
  rw [hsource] at hbelow
  exact hid (Option.some.inj (head_of_target rfl hbelow))

/-- The last merge takes the one source that is left, and lays its changes over the parent. -/
theorem lastMerge_spec {ctx : NodeContext} {base : Path → Option Data}
    {hidden : HiddenPath → Option Data} {exclude : List String} {t : Tree}
    {sources : List (String × Path)} {done : FanIn} (hfanned : FannedIn base hidden t sources done)
    (hhonest : StatHonest ctx (copyBaseline exclude finalTarget done.workdir)
      ((done.sources.take 1).map Prod.snd)) :
    ∃ merged, mergeChangedSources ctx ((done.sources.take 1).map Prod.snd) finalTarget
        (copyBaseline exclude finalTarget done.workdir) = .ok merged ∧
      ∀ p : PlainPath, FileTree.read (materializePortfolioWinner exclude finalTarget merged) p
        = if FileTree.topIn exclude p then base p
          else (PartialMerge.union (carriedBy base t sources) p).or (base p) := by
  have hlast : done.sources.take 1 = done.sources := List.take_of_length_le hfanned.single
  rw [hlast] at hhonest ⊢
  have hbatch := batch_spec hfanned.parent (fun _ hp => Or.inl hp) hfanned.final
    (fun s hs p => by
      obtain ⟨level, hsource⟩ := hfanned.complete s hs
      exact hsource.not_below_final)
    hfanned.agrees hhonest
  have hone : Consistent (carriedBy base done.workdir done.sources) := by
    apply PartialMerge.consistent_of_length_le_one
    rw [carriedBy, List.length_map]
    exact hfanned.single
  obtain ⟨merged, hmerged, hstands⟩ := hbatch.merged hone
  refine ⟨merged, hmerged, fun p => ?_⟩
  have hparent : FileTree.read merged p = base p := by
    rw [hstands.outside p fun hbelow => p.2 (Or.inl hbelow), hfanned.parent p p.2]
  rw [read_materializePortfolioWinner, hparent, hstands.content, hfanned.carries]
  split
  · rfl
  · -- A file of the parent stands in its place, copied or not.
    rw [Option.or_assoc]
    congr 1
    split
    · cases base p <;> rfl
    · rfl

/-- The reduction with batches of any width: it fails on a conflict among the changes of the
branches, and else it lays their union over the parent. -/
theorem materializeBy_spec {width : ℕ} {ctx : NodeContext} {branches : List BranchState} {t : Tree}
    {hidden : HiddenPath → Option Data} (hown : OwnWorkspaces branches)
    (hagrees : Agrees hidden t (decompositionSources branches))
    (hwidth : 2 ≤ width ∨ (decompositionSources branches).length ≤ 1)
    (hhonest : FanInHonest width ctx branches t) :
    Merges (branchChanges branches t) (materializeBy width ctx branches t) fun outcome =>
      ∀ p : PlainPath, FileTree.read outcome.1 p
        = if FileTree.topIn (excluded branches) p then parentFiles t p
          else (PartialMerge.union (branchChanges branches t) p).or (parentFiles t p) := by
  have hfan := fanInLevels_spec (ahead_removeTree t) (fun s hs => Or.inl (hown.source hs))
    (hagrees.congr fun s hs => hown.read_source t hs) hwidth (Nat.le_succ _) hhonest.1
  have hunfold : materializeBy width ctx branches t
      = fanInLevels ctx (excluded branches) width (decompositionSources branches).length 0
        (decompositionSources branches) (FileTree.removeTree t [fanInDir]) >>= fun fanIn =>
          mergeChangedSources ctx ((fanIn.sources.take 1).map Prod.snd) finalTarget
            (copyBaseline (excluded branches) finalTarget fanIn.workdir) >>= fun merged =>
              pure (materializePortfolioWinner (excluded branches) finalTarget merged,
                fanIn.batches) := rfl
  rw [hunfold]
  constructor
  · intro hconsistent
    obtain ⟨done, hok, hfanned⟩ := hfan.merged hconsistent
    obtain ⟨merged, hmerged, hreads⟩ := lastMerge_spec hfanned (hhonest.2 done hok)
    refine ⟨(materializePortfolioWinner (excluded branches) finalTarget merged, done.batches), ?_,
      hreads⟩
    apply Fallible.bind_eq_ok.mpr
    refine ⟨done, hok, ?_⟩
    rw [hmerged]
    rfl
  · intro hconflict
    obtain ⟨p, hp⟩ := hfan.conflict hconflict
    refine ⟨p, ?_⟩
    rw [hp]
    rfl

/-- Two merges come out alike: they leave the same files outside the directory of the fan-in, or
each of them raises a conflict. -/
inductive SameOutcome : Except NodeError (Tree × List (List String)) →
    Except NodeError (Tree × List (List String)) → Prop
  | artifact {first second : Tree} {batches others : List (List String)}
      (h : ∀ p, p.head? ≠ some fanInDir → FileTree.read first p = FileTree.read second p) :
      SameOutcome (.ok (first, batches)) (.ok (second, others))
  | conflict (p q : Path) : SameOutcome (.error (.valueError (conflictDetail p)))
      (.error (.valueError (conflictDetail q)))

theorem SameOutcome.isOk {first second : Except NodeError (Tree × List (List String))}
    (h : SameOutcome first second) : first.isOk = second.isOk := by
  cases h with
  | artifact _ => rfl
  | conflict _ _ => rfl

/-- Batches of any width, over the branches in any order, come out like one merge of all. -/
def MergesAlike (branches : List BranchState) (t : Tree) : Prop :=
  ∀ (width : ℕ) (layered direct : NodeContext) (shuffled : List BranchState), 2 ≤ width →
    shuffled.Perm branches → FanInHonest width layered shuffled t →
    FanInHonest (directWidth branches) direct branches t →
    SameOutcome (materializeBy width layered shuffled t)
      (materializeBy (directWidth branches) direct branches t)

/-- Whether a file of the parent or of a branch goes to this path of an artifact. -/
def Stands (branches : List BranchState) (t : Tree) (p : Path) : Prop :=
  (FileTree.topIn (excluded branches) p = false ∧ ∃ d, FileTree.read t p = some d) ∨
    ∃ s ∈ decompositionSources branches, ∃ d, FileTree.read t (s.2 ++ p) = some d

/-- What the branches must have written. -/
structure Mergeable (branches : List BranchState) (t : Tree) : Prop where
  -- No two branches differ at a path in a directory that the fan-in itself writes.
  agree : ∀ s ∈ decompositionSources branches, ∀ r ∈ decompositionSources branches,
    ∀ p, BelowTarget p → ∀ d e, FileTree.read t (s.2 ++ p) = some d →
      FileTree.read t (r.2 ++ p) = some e → d = e
  -- No file stands where another one needs a directory: a write would raise there.
  fits : ∀ p q, Stands branches t p → Stands branches t q → p <+: q → p = q
  roots : FileTree.read t [fanInDir] = none ∧
    ∀ s ∈ decompositionSources branches, FileTree.read t s.2 = none

theorem Mergeable.agrees {branches : List BranchState} {t : Tree} (h : Mergeable branches t) :
    ∃ hidden, Agrees hidden t (decompositionSources branches) := by
  let reads := (decompositionSources branches).map fun s => fun p : HiddenPath =>
    FileTree.read t (s.2 ++ p)
  have hconsistent : Consistent reads := by
    intro f hf g hg p d e hd he
    obtain ⟨s, hs, rfl⟩ := List.mem_map.mp hf
    obtain ⟨r, hr, rfl⟩ := List.mem_map.mp hg
    exact h.agree s hs r hr p p.2 d e hd he
  refine ⟨PartialMerge.union reads, fun s hs p d hd => ?_⟩
  exact hconsistent.union_eq_some.mpr ⟨_, List.mem_map_of_mem hs, hd⟩

section Order

variable {branches shuffled : List BranchState}

theorem OwnWorkspaces.perm (h : OwnWorkspaces branches) (hperm : shuffled.Perm branches) :
    OwnWorkspaces shuffled := fun b hb => h b (hperm.mem_iff.mp hb)

theorem decompositionSources_perm (hperm : shuffled.Perm branches) :
    (decompositionSources shuffled).Perm (decompositionSources branches) :=
  (hperm.filter _).map _

theorem mem_branchChanges (hperm : shuffled.Perm branches) (t : Tree)
    (f : PlainPath → Option Data) : f ∈ branchChanges shuffled t ↔ f ∈ branchChanges branches t :=
  ((decompositionSources_perm hperm).map _).mem_iff

theorem topIn_perm (hperm : shuffled.Perm branches) (p : Path) :
    FileTree.topIn (excluded shuffled) p = FileTree.topIn (excluded branches) p := by
  cases p with
  | nil => rfl
  | cons name rest =>
    have hmem : name ∈ excluded shuffled ↔ name ∈ excluded branches :=
      ((hperm.map _).append_right [fanInDir]).mem_iff
    show (excluded shuffled).contains name = (excluded branches).contains name
    rw [Bool.eq_iff_iff, List.contains_iff_mem, List.contains_iff_mem, hmem]

end Order

theorem directWidth_spec (branches : List BranchState) :
    2 ≤ directWidth branches ∨ (decompositionSources branches).length ≤ 1 := by
  unfold directWidth
  omega

/-- Where no two branches differ in the directories of the fan-in, and every file has room, the
reduction in layers comes out like one merge of all branches, in every order of them. -/
theorem merges_alike {branches : List BranchState} {t : Tree} (hown : OwnWorkspaces branches)
    (h : Mergeable branches t) : MergesAlike branches t := by
  intro width layered direct shuffled hwidth hperm hlayered hdirect
  obtain ⟨hidden, hagrees⟩ := h.agrees
  have hshuffled : Agrees hidden t (decompositionSources shuffled) := fun s hs =>
    hagrees s ((decompositionSources_perm hperm).mem_iff.mp hs)
  have hmem := mem_branchChanges hperm t
  have hfirst := materializeBy_spec (hown.perm hperm) hshuffled (Or.inl hwidth) hlayered
  have hsecond := materializeBy_spec hown hagrees (directWidth_spec branches) hdirect
  by_cases hconsistent : Consistent (branchChanges branches t)
  · have hother := (PartialMerge.consistent_congr hmem).mpr hconsistent
    obtain ⟨⟨artifact, batches⟩, hok, hreads⟩ := hfirst.merged hother
    obtain ⟨⟨artifact', batches'⟩, hok', hreads'⟩ := hsecond.merged hconsistent
    rw [hok, hok']
    apply SameOutcome.artifact
    intro p hp
    have hplain : ¬ BelowTarget p := fun hbelow => hp hbelow.head
    calc FileTree.read artifact p
        = if FileTree.topIn (excluded shuffled) p then parentFiles t p
          else (PartialMerge.union (branchChanges shuffled t) ⟨p, hplain⟩).or (parentFiles t p) :=
          hreads ⟨p, hplain⟩
      _ = if FileTree.topIn (excluded branches) p then parentFiles t p
          else (PartialMerge.union (branchChanges branches t) ⟨p, hplain⟩).or
            (parentFiles t p) := by
          rw [topIn_perm hperm, hother.union_congr hmem]
      _ = FileTree.read artifact' p := (hreads' ⟨p, hplain⟩).symm
  · obtain ⟨p, hp⟩ := hfirst.conflict fun hother =>
      hconsistent ((PartialMerge.consistent_congr hmem).mp hother)
    obtain ⟨q, hq⟩ := hsecond.conflict hconsistent
    rw [hp, hq]
    exact SameOutcome.conflict p q

theorem statHonest_of_never {ctx : NodeContext} (h : ∀ source p, ctx.sameStat source p = false)
    (t : Tree) (sources : List Path) : StatHonest ctx t sources := by
  intro source _ p d e _ _ hsame
  rw [h] at hsame
  cases hsame

theorem levelHonest_of_never {ctx : NodeContext} (h : ∀ source p, ctx.sameStat source p = false)
    (exclude : List String) (level : ℕ) (groups : List (List (String × Path))) (batchNo : ℕ)
    (t : Tree) : LevelHonest ctx exclude level batchNo groups t := by
  induction groups generalizing batchNo t with
  | nil => trivial
  | cons group groups ih => exact ⟨statHonest_of_never h _ _, fun merged _ => ih _ merged⟩

/-- Where no comparison by size and time says that two files are equal, none is wrong. -/
theorem fanInHonest_of_never {ctx : NodeContext} (h : ∀ source p, ctx.sameStat source p = false)
    (width : ℕ) (branches : List BranchState) (t : Tree) : FanInHonest width ctx branches t := by
  refine ⟨?_, fun fanIn _ => statHonest_of_never h _ _⟩
  generalize (decompositionSources branches).length = fuel
  generalize decompositionSources branches = sources
  generalize FileTree.removeTree t [fanInDir] = u
  generalize 0 = level
  induction fuel generalizing level sources u with
  | zero => trivial
  | succ fuel ih =>
    exact Or.inr ⟨levelHonest_of_never h _ _ _ _ _, fun next _ => ih _ _ _⟩

end Reduction

def decompositionBranch (id : String) : BranchState :=
  { branchId := id, kind := .decomposition, strategy := .scratch, workspaceRef := [id],
    budget := default }

/-- Two branches that each write a file. -/
def twoWriters : List BranchState :=
  [decompositionBranch "run-1-d0", decompositionBranch "run-1-d1"]

def twoOutputs : Tree :=
  FileTree.ofFiles [(["run-1-d0", "left"], [1]), (["run-1-d1", "right"], [2]), (["base"], [3])]

theorem read_twoOutputs {p : Path} {d : Data} (h : FileTree.read twoOutputs p = some d) :
    (p = ["run-1-d0", "left"] ∨ p = ["run-1-d1", "right"]) ∨ p = ["base"] := by
  have hfiles : FileTree.files twoOutputs =
      [(["base"], [3]), (["run-1-d1", "right"], [2]), (["run-1-d0", "left"], [1])] := by
    decide +kernel
  rw [← FileTree.mem_files, hfiles] at h
  simp only [List.mem_cons, Prod.mk.injEq, List.not_mem_nil, or_false] at h
  rcases h with ⟨hp, -⟩ | ⟨hp, -⟩ | ⟨hp, -⟩
  · exact Or.inr hp
  · exact Or.inl (Or.inr hp)
  · exact Or.inl (Or.inl hp)

theorem read_twoOutputs_source {s : String × Path} (hs : s ∈ decompositionSources twoWriters)
    {p : Path} {d : Data} (h : FileTree.read twoOutputs (s.2 ++ p) = some d) :
    p = ["left"] ∨ p = ["right"] := by
  have hsource : s.2 = ["run-1-d0"] ∨ s.2 = ["run-1-d1"] := by
    have hs' : s ∈ [("run-1-d0", ["run-1-d0"]), ("run-1-d1", ["run-1-d1"])] := hs
    simp only [List.mem_cons, List.not_mem_nil, or_false] at hs'
    rcases hs' with rfl | rfl
    · exact Or.inl rfl
    · exact Or.inr rfl
  rcases read_twoOutputs h with (hp | hp) | hp
  · rcases hsource with hs | hs <;> rw [hs] at hp
    · exact Or.inl (List.cons.inj hp).2
    · exact absurd (List.cons.inj hp).1 (by decide)
  · rcases hsource with hs | hs <;> rw [hs] at hp
    · exact absurd (List.cons.inj hp).1 (by decide)
    · exact Or.inr (List.cons.inj hp).2
  · rcases hsource with hs | hs <;> rw [hs] at hp
    · exact absurd (List.cons.inj hp).1 (by decide)
    · exact absurd (List.cons.inj hp).1 (by decide)

theorem stands_twoOutputs {p : Path} (h : Stands twoWriters twoOutputs p) :
    p = ["left"] ∨ p = ["right"] ∨ p = ["base"] := by
  rcases h with ⟨htop, d, hd⟩ | ⟨s, hs, d, hd⟩
  · rcases read_twoOutputs hd with (rfl | rfl) | rfl
    · exact absurd htop (by decide)
    · exact absurd htop (by decide)
    · exact Or.inr (Or.inr rfl)
  · rcases read_twoOutputs_source hs hd with hp | hp
    · exact Or.inl hp
    · exact Or.inr (Or.inl hp)

theorem twoOutputs_mergeable : Mergeable twoWriters twoOutputs where
  agree s hs r hr p hbelow d e hd _ := by
    rcases read_twoOutputs_source hs hd with rfl | rfl
    · exact absurd hbelow.head (by decide)
    · exact absurd hbelow.head (by decide)
  fits p q hp hq hprefix := by
    rcases stands_twoOutputs hp with rfl | rfl | rfl <;>
      rcases stands_twoOutputs hq with rfl | rfl | rfl
    all_goals first | rfl | exact absurd hprefix (by decide)
  roots := by
    refine ⟨by decide +kernel, fun s hs => ?_⟩
    cases hread : FileTree.read twoOutputs s.2 with
    | none => rfl
    | some d =>
      have hempty := read_twoOutputs_source hs (((List.append_nil s.2).symm ▸ hread))
      rcases hempty with h | h
      · cases h
      · cases h

theorem twoWriters_own : OwnWorkspaces twoWriters := by
  intro b hb
  have hb' : b ∈ [decompositionBranch "run-1-d0", decompositionBranch "run-1-d1"] := hb
  simp only [List.mem_cons, List.not_mem_nil, or_false] at hb'
  rcases hb' with rfl | rfl
  · exact ⟨rfl, by decide⟩
  · exact ⟨rfl, by decide⟩

theorem two_writers_merge_alike : MergesAlike twoWriters twoOutputs :=
  merges_alike twoWriters_own twoOutputs_mergeable

def eightBranches : List BranchState :=
  (List.range 8).map fun i => decompositionBranch ("run-1-d" ++ toString i)

/-- Two of eight branches left different files in the place of a batch, and one of them is the
parent's file. -/
def hiddenOutputs : Tree :=
  FileTree.ofFiles [(["f"], [1]), (["run-1-d0", ".fan-in", "level-1-batch-0", "f"], [1]),
    (["run-1-d4", ".fan-in", "level-1-batch-0", "f"], [2])]

/-- One merge of the eight branches conflicts, and the reduction by fours does not: when it merges
the two batches, the copy of the parent's file hides the change of the first. -/
theorem not_merges_alike :
    ¬ ∀ branches t, OwnWorkspaces branches → MergesAlike branches t := by
  intro h
  have hown : OwnWorkspaces eightBranches := by
    intro b hb
    obtain ⟨i, -, rfl⟩ := List.mem_map.mp hb
    refine ⟨rfl, fun hid => ?_⟩
    have hchars := congrArg String.toList hid
    simp only [decompositionBranch, String.toList_append] at hchars
    exact absurd (List.cons.inj hchars).1 (by decide)
  have halike := h eightBranches hiddenOutputs hown 4 {} {} eightBranches (by decide)
    (List.Perm.refl _) (fanInHonest_of_never (fun _ _ => rfl) _ _ _)
    (fanInHonest_of_never (fun _ _ => rfl) _ _ _)
  have hlayered : (materializeBy 4 {} eightBranches hiddenOutputs).isOk = true := by
    decide +kernel
  have hdirect : (materializeBy (directWidth eightBranches) {} eightBranches hiddenOutputs).isOk
      = false := by
    decide +kernel
  rw [halike.isOk, hdirect] at hlayered
  exact Bool.false_ne_true hlayered

end Recertia.Graph
