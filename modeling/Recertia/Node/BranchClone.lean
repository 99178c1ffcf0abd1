import Recertia.Node.FanOutReserve

/-! The workspaces that `fan_out` clones for its branches: when each of them holds what the parent
holds. -/
namespace Recertia.Graph

open FileTree (Path Data Tree)

/-- The names that `fan_out` gives to the workspaces of a run. -/
def IsBranchDir (runId name : String) : Prop :=
  ∃ k : ℕ, name = runId ++ "-p" ++ toString k ∨ name = runId ++ "-d" ++ toString k

/-- A file below the workspace of a branch, of this attempt or of an earlier one. -/
def InBranchDir (runId : String) : Path → Prop
  | top :: _ :: _ => IsBranchDir runId top
  | _ => False

/-- After `fan_out` the workspace of each dispatched branch holds exactly the files of the parent,
apart from the workspaces of the branches. Where a file stands in the place of a workspace `mkdir`
raises, and no branch is dispatched. -/
def StartsFromParent (s : RunState) (t : Tree) (result : Except NodeError NodeOutcome) : Prop :=
  ∀ o, result = .ok o → (∀ b ∈ dispatchedBranches o, FileTree.read t [b.branchId] = none) →
    ∀ b ∈ dispatchedBranches o, ∀ p ≠ [], ∀ d,
      FileTree.read o.workdir (b.branchId :: p) = some d ↔
        ¬ InBranchDir s.runId p ∧ FileTree.read t p = some d

/-- `item.name.startswith(ctx.run_id) or item.name.startswith("branch-")` -/
def skippedName (runId name : String) : Bool :=
  Text.startsWith name runId || Text.startsWith name "branch-"

/-- The ids of the branches that an admitted request is split into. -/
def branchIds (s : RunState) : List String :=
  (List.range (plannedCount s)).map fun i =>
    s.runId ++ (if s.strategy = some .portfolio then "-p" else "-d") ++ toString i

/-- What the workdir must be before: each branch workspace has nothing but files of the parent, and
the files it lacks are plain top-level files with nothing in their place. -/
structure Clonable (s : RunState) (t : Tree) : Prop where
  leftovers : ∀ b ∈ branchIds s, ∀ p ≠ [], ∀ d, FileTree.read t (b :: p) = some d →
    ¬ InBranchDir s.runId p ∧ FileTree.read t p = some d
  topLevel : ∀ b ∈ branchIds s, ∀ p ≠ [], ∀ d, ¬ InBranchDir s.runId p →
    FileTree.read t p = some d → FileTree.read t (b :: p) = some d ∨
      ∃ name, p = [name] ∧ skippedName s.runId name = false ∧
        FileTree.occupied t [b, name] = false

/-- The step of the clone for one item of the workdir. -/
def cloneItem (runId branchId : String) (u : Tree) (f : Path × Data) : Tree :=
  match f.1 with
  | [name] =>
    if skippedName runId name then u
    else if FileTree.occupied u [branchId, name] then u
    else FileTree.write u [branchId, name] f.2
  | _ => u

theorem cloneTopLevelFiles_eq (runId : String) (t : Tree) (branchId : String) :
    cloneTopLevelFiles runId t branchId = (FileTree.files t).foldl (cloneItem runId branchId) t :=
  rfl

theorem occupied_of_read {t : Tree} {p : Path} {d : Data} (h : FileTree.read t p = some d) :
    FileTree.occupied t p = true := by
  rw [FileTree.occupied_iff]
  refine ⟨[], d, ?_⟩
  rw [List.append_nil]
  exact h

/-- A write at one place of the branch workspace leaves the other top-level places as they were. -/
theorem occupied_write_ne {t : Tree} {branchId other name : String} (d : Data)
    (h : other ≠ name) :
    FileTree.occupied (FileTree.write t [branchId, name] d) [branchId, other] =
      FileTree.occupied t [branchId, other] := by
  rw [Bool.eq_iff_iff, FileTree.occupied_iff, FileTree.occupied_iff]
  have hread (rest : Path) : FileTree.read (FileTree.write t [branchId, name] d)
      ([branchId, other] ++ rest) = FileTree.read t ([branchId, other] ++ rest) := by
    apply FileTree.read_write_ne
    intro heq
    simp only [List.cons_append, List.nil_append, List.cons.injEq, true_and] at heq
    exact h heq.1
  simp only [hread]

/-- An item is copied if it is a top-level file with a plain name and nothing stands in its
place. -/
theorem cloneItem_cases (runId branchId : String) (u : Tree) (f : Path × Data) :
    (∃ name, f.1 = [name] ∧ skippedName runId name = false ∧
      FileTree.occupied u [branchId, name] = false ∧
      cloneItem runId branchId u f = FileTree.write u [branchId, name] f.2) ∨
    (cloneItem runId branchId u f = u ∧ ∀ name, f.1 = [name] → skippedName runId name = false →
      FileTree.occupied u [branchId, name] = true) := by
  unfold cloneItem
  split
  · rename_i name hname
    split
    · rename_i hskip
      refine Or.inr ⟨rfl, fun other hother hplain => ?_⟩
      obtain rfl : name = other := List.head_eq_of_cons_eq (hname.symm.trans hother)
      rw [hskip] at hplain
      cases hplain
    · rename_i hskip
      split
      · rename_i hoccupied
        refine Or.inr ⟨rfl, fun other hother _ => ?_⟩
        obtain rfl : name = other := List.head_eq_of_cons_eq (hname.symm.trans hother)
        exact hoccupied
      · rename_i hfree
        exact Or.inl ⟨name, hname, Bool.eq_false_of_not_eq_true hskip,
          Bool.eq_false_of_not_eq_true hfree, rfl⟩
  · rename_i hnested
    exact Or.inr ⟨rfl, fun name hname => absurd hname (hnested name)⟩

/-- What the loop over the items leaves at a path: what was there, or the item that was copied
there. -/
theorem read_foldl_cloneItem {runId branchId : String} {fs : List (Path × Data)} {u : Tree}
    (hnodup : (fs.map Prod.fst).Nodup) (q : Path) (d : Data) :
    FileTree.read (fs.foldl (cloneItem runId branchId) u) q = some d ↔
      FileTree.read u q = some d ∨ ∃ name, q = [branchId, name] ∧
        skippedName runId name = false ∧ FileTree.occupied u [branchId, name] = false ∧
        ([name], d) ∈ fs := by
  induction fs generalizing u with
  | nil => simp
  | cons f fs ih =>
    rw [List.map_cons, List.nodup_cons] at hnodup
    obtain ⟨hfresh, hnodup⟩ := hnodup
    rw [List.foldl_cons, ih hnodup]
    -- An item is copied to its free place, or it is none that the clone copies.
    rcases cloneItem_cases runId branchId u f with ⟨n, hn, hplain, hfree, hwrite⟩ | ⟨hsame, hwhy⟩
    · rw [hwrite]
      by_cases hq : q = [branchId, n]
      · -- The copied item is what the place holds from now on.
        have hnone : FileTree.read u q = none := by
          apply Option.eq_none_iff_forall_ne_some.mpr
          intro d' hd'
          rw [hq] at hd'
          rw [occupied_of_read hd'] at hfree
          cases hfree
        have htaken : FileTree.occupied (FileTree.write u [branchId, n] f.2) [branchId, n] =
            true := occupied_of_read (FileTree.read_write_self u [branchId, n] f.2)
        rw [hnone, hq, FileTree.read_write_self]
        constructor
        · rintro (hd | ⟨name, hname, -, hfree', -⟩)
          · refine Or.inr ⟨n, rfl, hplain, hfree, ?_⟩
            rw [← hn, ← Option.some.inj hd]
            exact List.mem_cons_self
          · rw [← hname, htaken] at hfree'
            cases hfree'
        · rintro (hd | ⟨name, hname, -, -, hmem⟩)
          · cases hd
          · rw [List.cons.injEq, List.cons.injEq] at hname
            obtain ⟨-, rfl, -⟩ := hname
            rcases List.mem_cons.mp hmem with rfl | hmem
            · exact Or.inl rfl
            · exact absurd (hn ▸ List.mem_map_of_mem hmem) hfresh
      · rw [FileTree.read_write_ne u f.2 hq]
        apply or_congr_right
        apply exists_congr
        intro name
        apply and_congr_right
        intro hname
        have hne : name ≠ n := by
          intro heq
          exact hq (heq ▸ hname)
        have hmem : ([name], d) ∈ f :: fs ↔ ([name], d) ∈ fs := by
          rw [List.mem_cons, or_iff_right]
          intro heq
          rw [← heq] at hn
          exact hne (List.head_eq_of_cons_eq hn)
        rw [occupied_write_ne f.2 hne, hmem]
    · rw [hsame]
      apply or_congr_right
      apply exists_congr
      intro name
      apply and_congr_right
      intro _
      apply and_congr_right
      intro hplain
      apply and_congr_right
      intro hfree
      rw [List.mem_cons, or_iff_right]
      intro heq
      rw [hwhy name (by rw [← heq]) hplain] at hfree
      cases hfree

theorem read_cloneTopLevelFiles (runId : String) (t : Tree) (branchId : String) (q : Path)
    (d : Data) :
    FileTree.read (cloneTopLevelFiles runId t branchId) q = some d ↔
      FileTree.read t q = some d ∨ ∃ name, q = [branchId, name] ∧
        skippedName runId name = false ∧ FileTree.occupied t [branchId, name] = false ∧
        FileTree.read t [name] = some d := by
  rw [cloneTopLevelFiles_eq, read_foldl_cloneItem (FileTree.files_nodup t)]
  simp only [FileTree.mem_files]

/-- The clones of all branches: the workspaces gain the plain top-level files of the parent. -/
theorem read_foldl_clone (runId : String) (ids : List String) (t : Tree) (q : Path) (d : Data) :
    FileTree.read (ids.foldl (cloneTopLevelFiles runId) t) q = some d ↔
      FileTree.read t q = some d ∨ ∃ b ∈ ids, ∃ name, q = [b, name] ∧
        skippedName runId name = false ∧ FileTree.occupied t [b, name] = false ∧
        FileTree.read t [name] = some d := by
  induction ids generalizing t with
  | nil => simp
  | cons b ids ih =>
    have hkeep : ∀ p d', FileTree.read t p = some d' →
        FileTree.read (cloneTopLevelFiles runId t b) p = some d' := by
      intro p d' hread
      exact (read_cloneTopLevelFiles runId t b p d').mpr (Or.inl hread)
    have htop (name : String) : FileTree.read (cloneTopLevelFiles runId t b) [name] = some d ↔
        FileTree.read t [name] = some d := by
      rw [read_cloneTopLevelFiles, or_iff_left]
      rintro ⟨other, hother, -⟩
      cases hother
    rw [List.foldl_cons, ih]
    constructor
    · rintro (hread | ⟨b', hb', name, hq, hplain, hfree, hname⟩)
      · rcases (read_cloneTopLevelFiles runId t b q d).mp hread with hread | ⟨name, hq, hrest⟩
        · exact Or.inl hread
        · exact Or.inr ⟨b, List.mem_cons_self, name, hq, hrest⟩
      · refine Or.inr ⟨b', List.mem_cons_of_mem b hb', name, hq, hplain, ?_, (htop name).mp hname⟩
        apply Bool.eq_false_of_not_eq_true
        intro hoccupied
        obtain ⟨rest, d', hread⟩ := FileTree.occupied_iff.mp hoccupied
        rw [FileTree.occupied_iff.mpr ⟨rest, d', hkeep _ _ hread⟩] at hfree
        cases hfree
    · rintro (hread | ⟨b', hb', name, hq, hplain, hfree, hname⟩)
      · exact Or.inl (hkeep q d hread)
      · by_cases hoccupied :
            FileTree.occupied (cloneTopLevelFiles runId t b) [b', name] = true
        · -- The place was free, so the clone for `b` has just filled it.
          obtain ⟨rest, d', hread⟩ := FileTree.occupied_iff.mp hoccupied
          rcases (read_cloneTopLevelFiles runId t b _ d').mp hread with hread | ⟨other, heq, -⟩
          · rw [FileTree.occupied_iff.mpr ⟨rest, d', hread⟩] at hfree
            cases hfree
          · simp only [List.cons_append, List.nil_append, List.cons.injEq] at heq
            obtain ⟨rfl, rfl, -⟩ := heq
            exact Or.inl ((read_cloneTopLevelFiles runId t b' q d).mpr
              (Or.inr ⟨name, hq, hplain, hfree, hname⟩))
        · have hids : b' ∈ ids := by
            rcases List.mem_cons.mp hb' with rfl | hids
            · -- The clone for `b'` itself would have filled the place.
              exfalso
              apply hoccupied
              apply occupied_of_read (d := d)
              exact (read_cloneTopLevelFiles runId t b' _ d).mpr
                (Or.inr ⟨name, rfl, hplain, hfree, hname⟩)
            · exact hids
          exact Or.inr ⟨b', hids, name, hq, hplain, Bool.eq_false_of_not_eq_true hoccupied,
            (htop name).mpr hname⟩

theorem portfolioBranches_ids (s : RunState) (n : ℕ) (child : Budget)
    (reserved : BudgetReservation) :
    (portfolioBranches s n child reserved).map (·.branchId) =
      (List.range (min (n - 1) s.bundle.skills.length + 1)).map fun i =>
        s.runId ++ "-p" ++ toString i := by
  have hlen : ((s.bundle.skills.take (n - 1)).map some ++ [none]).length =
      min (n - 1) s.bundle.skills.length + 1 := by simp
  rw [← hlen, List.range_eq_range', ← List.zipIdx_map_snd, List.map_map]
  unfold portfolioBranches
  rw [List.map_map]
  rfl

theorem decompositionBranches_ids (s : RunState) (owned : List (String × List String))
    (child : Budget) (reserved : BudgetReservation) :
    (decompositionBranches s owned child reserved).map (·.branchId) =
      (List.range owned.length).map fun i => s.runId ++ "-d" ++ toString i := by
  rw [List.range_eq_range', ← List.zipIdx_map_snd, List.map_map]
  unfold decompositionBranches
  rw [List.map_map]
  rfl

/-- The workdir that a dispatched request leaves. -/
theorem fanOutAdmitted_workdir {ctx : NodeContext} {s : RunState} (t : Tree) (child : Budget)
    (perBranch requested : BudgetReservation) (h : Dispatches ctx s) :
    (fanOutAdmitted s t child perBranch requested).state.branches.map (·.branchId) = branchIds s ∧
      (fanOutAdmitted s t child perBranch requested).workdir =
        (branchIds s).foldl (cloneTopLevelFiles s.runId) t := by
  have hids : (fanOutAdmitted s t child perBranch requested).state.branches.map (·.branchId) =
      branchIds s := by
    unfold fanOutAdmitted branchIds plannedCount
    dsimp only
    by_cases hportfolio : s.strategy = some .portfolio
    · simp only [if_pos hportfolio]
      exact portfolioBranches_ids s _ child perBranch
    · obtain ⟨owned, howned, -⟩ := h.owned hportfolio
      simp only [if_neg hportfolio, howned, Option.getD_some]
      exact decompositionBranches_ids s owned child perBranch
  refine ⟨hids, ?_⟩
  rw [← hids, List.foldl_map]
  unfold fanOutAdmitted
  dsimp only
  split
  · rfl
  · rename_i hportfolio
    obtain ⟨owned, howned, -⟩ := h.owned hportfolio
    rw [howned]
    rfl

/-- What the workspace of a dispatched branch holds. -/
theorem read_dispatched {ctx : NodeContext} {s : RunState} (t : Tree) (child : Budget)
    (perBranch requested : BudgetReservation) (h : Dispatches ctx s) {b : String}
    (hb : b ∈ branchIds s) (p : Path) (d : Data) :
    FileTree.read (fanOutAdmitted s t child perBranch requested).workdir (b :: p) = some d ↔
      FileTree.read t (b :: p) = some d ∨
        ∃ name, p = [name] ∧ skippedName s.runId name = false ∧
          FileTree.occupied t [b, name] = false ∧ FileTree.read t [name] = some d := by
  rw [(fanOutAdmitted_workdir t child perBranch requested h).2, read_foldl_clone]
  apply or_congr_right
  constructor
  · rintro ⟨b', -, name, heq, hrest⟩
    rw [List.cons.injEq] at heq
    obtain ⟨rfl, rfl⟩ := heq
    exact ⟨name, rfl, hrest⟩
  · rintro ⟨name, rfl, hrest⟩
    exact ⟨b, hb, name, rfl, hrest⟩

theorem starts_of_dispatch {ctx : NodeContext} {s : RunState} (t : Tree) (child : Budget)
    (perBranch requested : BudgetReservation) (h : Dispatches ctx s) :
    StartsFromParent s t (.ok (fanOutAdmitted s t child perBranch requested)) ↔
      ((∀ b ∈ branchIds s, FileTree.read t [b] = none) → Clonable s t) := by
  have hread (b : String) (hb : b ∈ branchIds s) :=
    read_dispatched t child perBranch requested h hb
  have hids := (fanOutAdmitted_workdir t child perBranch requested h).1
  have hdispatched := dispatchedBranches_admitted t child perBranch requested h
  set o := fanOutAdmitted s t child perBranch requested
  have hall (P : String → Prop) :
      (∀ b ∈ dispatchedBranches o, P b.branchId) ↔ ∀ b ∈ branchIds s, P b := by
    rw [hdispatched, ← hids, List.forall_mem_map]
  constructor
  · intro hstarts hfree
    have hcopy := (hall fun b => ∀ p ≠ [], ∀ d, FileTree.read o.workdir (b :: p) = some d ↔
      ¬ InBranchDir s.runId p ∧ FileTree.read t p = some d).mp
        (hstarts o rfl ((hall fun b => FileTree.read t [b] = none).mpr hfree))
    refine ⟨fun b hb p hp d hleft => ?_, fun b hb p hp d hout hparent => ?_⟩
    · apply (hcopy b hb p hp d).mp
      exact (hread b hb p d).mpr (Or.inl hleft)
    · have hthere := (hcopy b hb p hp d).mpr ⟨hout, hparent⟩
      rcases (hread b hb p d).mp hthere with hleft | ⟨name, hname, hplain, hfree', -⟩
      · exact Or.inl hleft
      · exact Or.inr ⟨name, hname, hplain, hfree'⟩
  · intro hclonable o' ho' hfree
    obtain rfl : o = o' := Except.ok.inj ho'
    have hcond := hclonable ((hall fun b => FileTree.read t [b] = none).mp hfree)
    apply (hall fun b => ∀ p ≠ [], ∀ d, FileTree.read o.workdir (b :: p) = some d ↔
      ¬ InBranchDir s.runId p ∧ FileTree.read t p = some d).mpr
    intro b hb p hp d
    rw [hread b hb p d]
    constructor
    · rintro (hleft | ⟨name, rfl, -, -, hname⟩)
      · exact hcond.leftovers b hb p hp d hleft
      · exact ⟨id, hname⟩
    · rintro ⟨hout, hparent⟩
      rcases hcond.topLevel b hb p hp d hout hparent with hleft | ⟨name, rfl, hplain, hfree'⟩
      · exact Or.inl hleft
      · exact Or.inr ⟨name, rfl, hplain, hfree', hparent⟩

/-- The branches of `fan_out` start from the parent's workspace exactly when the workdir is
clonable, or nothing is dispatched into it. -/
theorem starts_from_parent_iff (ctx : NodeContext) (s : RunState) (t : Tree) :
    StartsFromParent s t (fanOut ctx s t) ↔
      (Dispatches ctx s → (∀ b ∈ branchIds s, FileTree.read t [b] = none) → Clonable s t) := by
  rcases fanOut_cases ctx s t with ⟨h, child, ho⟩ | ⟨hnone, hquiet⟩
  · rw [ho, starts_of_dispatch t child _ _ h]
    exact ⟨fun hcond _ => hcond, fun hcond => hcond h⟩
  · refine ⟨fun _ h => absurd h hnone, fun _ o ho _ b hb => ?_⟩
    rw [(hquiet o ho).1] at hb
    cases hb

/-- A workdir with a file in a directory. -/
def nestedWorkdir : Tree := FileTree.write ∅ ["docs", "guide.md"] [35]

/-- The scratch branch does not get the file in the directory. -/
theorem not_starts_from_parent_nested :
    ¬ StartsFromParent skilllessPortfolio nestedWorkdir
      (fanOut {} skilllessPortfolio nestedWorkdir) := by
  intro h
  have hd := skilllessPortfolio_dispatches
  have hids : branchIds skilllessPortfolio = ["run-1-p0"] := by decide +kernel
  have hread (p : Path) (hp : p ≠ ["docs", "guide.md"]) : FileTree.read nestedWorkdir p = none :=
    FileTree.read_write_ne ∅ [35] hp
  have hout : ¬ InBranchDir "run-1" ["docs", "guide.md"] := by
    rintro ⟨k, hk | hk⟩
    all_goals
      have hlist := congrArg String.toList hk
      simp at hlist
  rcases fanOut_cases {} skilllessPortfolio nestedWorkdir with ⟨-, child, ho⟩ | ⟨hnone, -⟩
  · rw [ho, starts_of_dispatch nestedWorkdir child _ _ hd, hids] at h
    have hclonable := h fun b hb => by
      rw [List.mem_singleton.mp hb]
      exact hread _ (by decide)
    have hcopied := hclonable.topLevel "run-1-p0" (by rw [hids]; exact List.mem_cons_self)
      ["docs", "guide.md"] (by decide) [35] hout (FileTree.read_write_self ∅ _ _)
    rcases hcopied with hleft | ⟨name, hname, -⟩
    · rw [hread _ (by decide)] at hleft
      cases hleft
    · cases hname
  · exact hnone hd

end Recertia.Graph
