import Mathlib.Data.Prod.Lex
import Mathlib.Order.Compare
import Mathlib.Order.WithBot
import Recertia.Lib.Keyset
import Recertia.Skill.Refresh

/-! The ranking of the portfolio as a total order on versions, and its retirement proposals against
the benching of a version. -/
namespace Recertia.Skill

open OrderDual (toDual)

/-- A ranked candidate with what its retirement is decided on. -/
structure RankedItem extends PortfolioRankItem where
  contributionEstimate : Option ℚ
  intervalHigh : Option ℚ

def rankedItem (ref : SkillRef) (stats : SkillStats) : RankedItem where
  toPortfolioRankItem := rankItem ref stats
  contributionEstimate := stats.contribution.estimate
  intervalHigh := stats.contribution.intervalHigh

/-- `rank_skills` with its score function; a score of minus infinity is `none`. -/
def rankSkillsBy (scoreFn : Option (RankedItem → Option ℚ))
    (candidates : List (SkillRef × SkillStats)) : List RankedItem :=
  let items := candidates.map fun c => rankedItem c.1 c.2
  let scored := scoreFn.elim items fun f => items.map fun item => { item with score := f item }
  scored.insertionSort fun a b => a.compareKey b.toPortfolioRankItem ≠ .gt

structure RetirementProposal where
  ref : SkillRef
  /-- the bound that the text of the evidence gives -/
  evidence : Option ℚ
  contributionEstimate : Option ℚ
  applications : ℕ

def proposeRetirements (config : AutonomyConfig) (ranked : List RankedItem) :
    List RetirementProposal :=
  ranked.filterMap fun item =>
    if retirementDecision item.applications item.contributionEstimate item.intervalHigh
        config.evidenceFloor config.retirementThreshold = .retire then
      some ⟨item.ref, item.intervalHigh, item.contributionEstimate, item.applications⟩
    else none

/-! ### The order of the key -/

/-- The latest use first, and no use last. -/
def RecencyKey : Type := WithTop ℤᵒᵈ

instance : LinearOrder RecencyKey := inferInstanceAs (LinearOrder (WithTop ℤᵒᵈ))

/-- The components of the key, in the order of their weight. -/
def RankKey : Type := (WithBot ℚ)ᵒᵈ ×ₗ ℚᵒᵈ ×ₗ RecencyKey ×ₗ ℕᵒᵈ ×ₗ String ×ₗ ℕ

instance : LinearOrder RankKey :=
  inferInstanceAs (LinearOrder ((WithBot ℚ)ᵒᵈ ×ₗ ℚᵒᵈ ×ₗ RecencyKey ×ₗ ℕᵒᵈ ×ₗ String ×ₗ ℕ))

def scoreKey (score : Option ℚ) : (WithBot ℚ)ᵒᵈ := toDual (score.elim ⊥ fun q => (q : WithBot ℚ))

def recencyKey (lastUsedAt : Option Int) : RecencyKey :=
  lastUsedAt.elim (⊤ : WithTop ℤᵒᵈ) fun at' => ((toDual at' : ℤᵒᵈ) : WithTop ℤᵒᵈ)

def PortfolioRankItem.key (item : PortfolioRankItem) : RankKey :=
  toLex (scoreKey item.score, toLex (toDual item.predictiveTrust,
    toLex (recencyKey item.lastUsedAt, toLex (toDual item.applications,
      toLex (item.ref.skillId, item.ref.version)))))

/-- A comparison that decides by its first part, unless that is equal. -/
theorem then_ne_gt_iff {α β : Type*} [LinearOrder α] [LinearOrder β] {o o' : Ordering} {x y : α}
    {k k' : β} (hgt : o = .gt ↔ y < x) (heq : o = .eq ↔ x = y) (h : o' ≠ .gt ↔ k ≤ k') :
    o.then o' ≠ .gt ↔ toLex (x, k) ≤ toLex (y, k') := by
  rw [Prod.Lex.toLex_le_toLex]
  cases o with
  | lt =>
    have hne : x ≠ y := fun he => Ordering.noConfusion (heq.mpr he)
    have hle : ¬ y < x := fun hl => Ordering.noConfusion (hgt.mpr hl)
    have hlt : x < y := lt_of_le_of_ne (not_lt.mp hle) hne
    exact iff_of_true (fun hc => Ordering.noConfusion hc) (.inl hlt)
  | eq =>
    have hxy : x = y := heq.mp rfl
    rw [Ordering.then, h, hxy]
    simp
  | gt =>
    have hlt : y < x := hgt.mp rfl
    refine iff_of_false (fun hc => hc rfl) ?_
    rintro (hc | ⟨hc, -⟩)
    · exact lt_asymm hc hlt
    · exact hlt.ne' hc

theorem compareScore_gt {a b : Option ℚ} :
    compareScore b a = .gt ↔ scoreKey b < scoreKey a := by
  rw [scoreKey, scoreKey, OrderDual.toDual_lt_toDual]
  cases a <;> cases b <;> simp [compareScore, compare_gt_iff_gt]

theorem compareScore_eq {a b : Option ℚ} :
    compareScore b a = .eq ↔ scoreKey a = scoreKey b := by
  rw [scoreKey, scoreKey, OrderDual.toDual_inj]
  cases a <;> cases b <;> simp [compareScore, @eq_comm ℚ]

theorem compareRecency_gt {a b : Option Int} :
    compareRecency a b = .gt ↔ recencyKey b < recencyKey a := by
  cases a with
  | none =>
    cases b with
    | none => exact iff_of_false (fun h => Ordering.noConfusion h) (lt_irrefl (⊤ : WithTop ℤᵒᵈ))
    | some b => exact iff_of_true rfl (WithTop.coe_lt_top (toDual b))
  | some a =>
    cases b with
    | none =>
      have htop : ¬ (⊤ : WithTop ℤᵒᵈ) < ((toDual a : ℤᵒᵈ) : WithTop ℤᵒᵈ) := not_top_lt
      exact iff_of_false (fun h => Ordering.noConfusion h) htop
    | some b =>
      change compare b a = .gt ↔
        ((toDual b : ℤᵒᵈ) : WithTop ℤᵒᵈ) < ((toDual a : ℤᵒᵈ) : WithTop ℤᵒᵈ)
      rw [compare_gt_iff_gt, WithTop.coe_lt_coe, OrderDual.toDual_lt_toDual]

theorem compareRecency_eq {a b : Option Int} :
    compareRecency a b = .eq ↔ recencyKey a = recencyKey b := by
  cases a with
  | none =>
    cases b with
    | none => exact iff_of_true rfl rfl
    | some b => exact iff_of_false (fun h => Ordering.noConfusion h) WithTop.top_ne_coe
  | some a =>
    cases b with
    | none => exact iff_of_false (fun h => Ordering.noConfusion h) WithTop.coe_ne_top
    | some b =>
      change compare b a = .eq ↔
        ((toDual a : ℤᵒᵈ) : WithTop ℤᵒᵈ) = ((toDual b : ℤᵒᵈ) : WithTop ℤᵒᵈ)
      rw [compare_eq_iff_eq, WithTop.coe_inj, OrderDual.toDual_inj, eq_comm]

/-- A component that descends. -/
theorem then_swap_ne_gt_iff {α β : Type*} [LinearOrder α] [LinearOrder β] {o : Ordering} {x y : α}
    {k k' : β} (h : o ≠ .gt ↔ k ≤ k') :
    (compare y x).then o ≠ .gt ↔ toLex (toDual x, k) ≤ toLex (toDual y, k') := by
  refine then_ne_gt_iff ?_ ?_ h
  · rw [compare_gt_iff_gt, OrderDual.toDual_lt_toDual]
  · rw [compare_eq_iff_eq, OrderDual.toDual_inj, eq_comm]

/-- The comparison of two items is that of their keys. -/
theorem compareKey_ne_gt {a b : PortfolioRankItem} : a.compareKey b ≠ .gt ↔ a.key ≤ b.key := by
  apply then_ne_gt_iff compareScore_gt compareScore_eq
  apply then_swap_ne_gt_iff
  apply then_ne_gt_iff compareRecency_gt compareRecency_eq
  apply then_swap_ne_gt_iff
  apply then_ne_gt_iff compare_gt_iff_gt compare_eq_iff_eq
  rw [Ne, compare_gt_iff_gt, not_lt]

/-- The version that a key ends with. -/
def keyRef (key : RankKeyᵒᵈ) : SkillRef :=
  let id := ofLex (ofLex (ofLex (ofLex (ofLex (OrderDual.ofDual key)).2).2).2).2
  ⟨(ofLex id).1, (ofLex id).2⟩

/-- The items in the order of the candidates, scored. -/
def scoredItems (scoreFn : Option (RankedItem → Option ℚ))
    (candidates : List (SkillRef × SkillStats)) : List RankedItem :=
  candidates.map fun c =>
    scoreFn.elim (rankedItem c.1 c.2) fun f =>
      { rankedItem c.1 c.2 with score := f (rankedItem c.1 c.2) }

theorem rankSkillsBy_eq (scoreFn : Option (RankedItem → Option ℚ))
    (candidates : List (SkillRef × SkillStats)) :
    rankSkillsBy scoreFn candidates =
      Keyset.order (fun item => toDual item.key) (scoredItems scoreFn candidates) := by
  have hitems : (scoreFn.elim (candidates.map fun c => rankedItem c.1 c.2) fun f =>
      (candidates.map fun c => rankedItem c.1 c.2).map fun item => { item with score := f item }) =
        scoredItems scoreFn candidates := by
    cases scoreFn with
    | none => rfl
    | some f => exact List.map_map
  simp only [rankSkillsBy, hitems, Keyset.order, compareKey_ne_gt, OrderDual.toDual_le_toDual]

theorem scoredItems_refs (scoreFn : Option (RankedItem → Option ℚ))
    (candidates : List (SkillRef × SkillStats)) :
    (scoredItems scoreFn candidates).map (fun item => item.ref) = candidates.map Prod.fst := by
  rw [scoredItems, List.map_map]
  apply List.map_congr_left
  intro c _
  cases scoreFn <;> rfl

/-- The ranking is the same for every order of the candidates. -/
theorem rankSkillsBy_perm (scoreFn : Option (RankedItem → Option ℚ))
    {candidates candidates' : List (SkillRef × SkillStats)} (hperm : candidates.Perm candidates')
    (h : (candidates.map Prod.fst).Nodup) :
    rankSkillsBy scoreFn candidates = rankSkillsBy scoreFn candidates' := by
  rw [rankSkillsBy_eq, rankSkillsBy_eq]
  apply Keyset.order_perm (hperm.map _)
  rw [← scoredItems_refs scoreFn] at h
  apply List.Nodup.of_map keyRef
  rw [List.map_map]
  exact h

/-! ### The selection -/

theorem rankSkills_eq (candidates : List (SkillRef × SkillStats)) :
    rankSkills candidates =
      Keyset.order (fun item => toDual item.key) (candidates.map fun c => rankItem c.1 c.2) := by
  simp only [rankSkills, Keyset.order, compareKey_ne_gt, OrderDual.toDual_le_toDual]

theorem rankSkills_perm {candidates candidates' : List (SkillRef × SkillStats)}
    (hperm : candidates.Perm candidates') (h : (candidates.map Prod.fst).Nodup) :
    rankSkills candidates = rankSkills candidates' := by
  rw [rankSkills_eq, rankSkills_eq]
  apply Keyset.order_perm (hperm.map _)
  apply List.Nodup.of_map keyRef
  rw [List.map_map, List.map_map]
  exact h

/-- The rows with an estimate, when there is evidence to estimate from. -/
def estimatedRows (withEvidence : Bool) (approved : List PoolRow) : List PoolRow :=
  approved.filter fun row =>
    withEvidence && (row.stats.contribution.estimate.isSome && row.eligible)

theorem rankedPool_eq (withEvidence : Bool) (approved : List PoolRow) :
    rankedPool withEvidence approved =
      if estimatedRows withEvidence approved = [] then approved.filter PoolRow.eligible
      else estimatedRows withEvidence approved := by
  cases withEvidence with
  | false =>
    have hnone : estimatedRows false approved = [] := List.filter_false approved
    rw [hnone]
    rfl
  | true => rfl

theorem rankedPool_perm (withEvidence : Bool) {approved approved' : List PoolRow}
    (hperm : approved.Perm approved') :
    (rankedPool withEvidence approved).Perm (rankedPool withEvidence approved') := by
  have hestimated : (estimatedRows withEvidence approved).Perm
      (estimatedRows withEvidence approved') := hperm.filter _
  rw [rankedPool_eq, rankedPool_eq]
  by_cases hnil : estimatedRows withEvidence approved = []
  · rw [hnil] at hestimated
    rw [if_pos hnil, if_pos hestimated.symm.eq_nil]
    exact hperm.filter _
  · rw [if_neg hnil, if_neg]
    · exact hestimated
    · intro hnil'
      rw [hnil'] at hestimated
      exact hnil hestimated.eq_nil

theorem rankedPool_sublist (withEvidence : Bool) (approved : List PoolRow) :
    (rankedPool withEvidence approved).Sublist approved := by
  rw [rankedPool_eq]
  split
  · exact List.filter_sublist
  · exact List.filter_sublist

/-- The cut of a class is the same for every order of its rows. -/
theorem topIds_perm (config : AutonomyConfig) (evidence : Option Evidence)
    {rows rows' : List (SkillRef × Entry)} (hperm : rows.Perm rows')
    (h : (rows.map Prod.fst).Nodup) :
    topIds config evidence rows = topIds config evidence rows' := by
  have happroved : (approvedRows evidence rows).Perm (approvedRows evidence rows') :=
    (hperm.filter _).map _
  have hrefs : ((approvedRows evidence rows).map PoolRow.ref).Nodup := by
    rw [approvedRows, List.map_map]
    exact h.sublist (List.filter_sublist.map Prod.fst)
  rw [topIds, topIds, rankSkills_perm ((rankedPool_perm _ happroved).map _)]
  rw [List.map_map]
  exact hrefs.sublist ((rankedPool_sublist _ _).map PoolRow.ref)

/-! ### Retirements -/

theorem mem_rankSkillsBy {scoreFn : Option (RankedItem → Option ℚ)}
    {candidates : List (SkillRef × SkillStats)} {item : RankedItem} :
    item ∈ rankSkillsBy scoreFn candidates ↔ item ∈ scoredItems scoreFn candidates := by
  rw [rankSkillsBy_eq, Keyset.mem_order]

/-- What a retirement is decided on does not depend on the score. -/
theorem proposed_iff (config : AutonomyConfig) (scoreFn : Option (RankedItem → Option ℚ))
    (candidates : List (SkillRef × SkillStats)) (ref : SkillRef) :
    ref ∈ (proposeRetirements config (rankSkillsBy scoreFn candidates)).map RetirementProposal.ref ↔
      ∃ stats, (ref, stats) ∈ candidates ∧
        retirementDecision stats.contribution.applications stats.contribution.estimate
          stats.contribution.intervalHigh config.evidenceFloor config.retirementThreshold
            = .retire := by
  have hscored : ∀ c : SkillRef × SkillStats, ∃ item,
      scoreFn.elim (rankedItem c.1 c.2) (fun f =>
        { rankedItem c.1 c.2 with score := f (rankedItem c.1 c.2) }) = item ∧
      item.ref = c.1 ∧ item.applications = c.2.contribution.applications ∧
      item.contributionEstimate = c.2.contribution.estimate ∧
      item.intervalHigh = c.2.contribution.intervalHigh := by
    intro c
    cases scoreFn <;> exact ⟨_, rfl, rfl, rfl, rfl, rfl⟩
  simp only [proposeRetirements, List.mem_map, List.mem_filterMap, mem_rankSkillsBy, scoredItems]
  constructor
  · rintro ⟨proposal, ⟨item, ⟨c, hc, hitem⟩, hproposal⟩, rfl⟩
    obtain ⟨item', hitem', href, happs, hestimate, hhigh⟩ := hscored c
    rw [hitem'] at hitem
    subst hitem
    split at hproposal
    · rename_i hretire
      cases hproposal
      rw [happs, hestimate, hhigh] at hretire
      exact ⟨c.2, href ▸ hc, hretire⟩
    · cases hproposal
  · rintro ⟨stats, hc, hretire⟩
    obtain ⟨item, hitem, href, happs, hestimate, hhigh⟩ := hscored (ref, stats)
    refine ⟨⟨item.ref, item.intervalHigh, item.contributionEstimate, item.applications⟩,
      ⟨item, ⟨(ref, stats), hc, hitem⟩, ?_⟩, href⟩
    rw [happs, hestimate, hhigh, if_pos hretire]

/-- The contribution that the samples of a version give, evaluated at any time. -/
def FromSamples (evidence : Evidence) (ref : SkillRef) (stats : SkillStats) : Prop :=
  ∃ now, stats.contribution = contributionOf { evidence with now := now } ref

theorem decision_of_samples {evidence : Evidence} {ref : SkillRef} {stats : SkillStats}
    (h : FromSamples evidence ref stats) (config : AutonomyConfig) :
    retirementDecision stats.contribution.applications stats.contribution.estimate
        stats.contribution.intervalHigh config.evidenceFloor config.retirementThreshold = .retire ↔
      retires config evidence ref = true := by
  obtain ⟨now, hnow⟩ := h
  have happs : stats.contribution.applications = (evidence.samples ref).1.trials := by
    rw [hnow, contributionOf, estimateContribution]
    split <;> rfl
  have hestimate : stats.contribution.estimate = (contributionOf evidence ref).estimate := by
    rw [hnow, contributionOf, contributionOf, estimateContribution, estimateContribution]
    split <;> rfl
  have hhigh : stats.contribution.intervalHigh = (contributionOf evidence ref).intervalHigh := by
    rw [hnow, contributionOf, contributionOf, estimateContribution, estimateContribution]
    split <;> rfl
  rw [retires, happs, hestimate, hhigh, decide_eq_true_iff]

/-- The ranking of a set of versions and the cut of a class do not depend on the order in which the
versions come, and a ranking of versions that have a status proposes to retire exactly those that
would be benched on the same samples. -/
theorem portfolio_order_and_benching (config : AutonomyConfig) (evidence : Evidence)
    (lib : Library) (candidates : Table SkillRef SkillStats) :
    (∀ shuffled : List (SkillRef × SkillStats), shuffled.Perm candidates.rows → ∀ scoreFn,
      rankSkillsBy scoreFn shuffled = rankSkillsBy scoreFn candidates.rows) ∧
    (∀ (entries : Table SkillRef Entry) (shuffled : List (SkillRef × Entry)),
      shuffled.Perm entries.rows →
      topIds config (some evidence) shuffled = topIds config (some evidence) entries.rows ∧
        topIds config none shuffled = topIds config none entries.rows) ∧
    ((∀ ref stats, (ref, stats) ∈ candidates.rows → FromSamples evidence ref stats ∧
        ∃ status, lib.getStatus ref = .ok status) →
      ∀ scoreFn ref,
        ref ∈ (proposeRetirements config (rankSkillsBy scoreFn candidates.rows)).map
            RetirementProposal.ref ↔
          ref ∈ candidates.keys ∧
            ∃ lib', maybeBenchOnContribution config evidence ref lib = .ok lib') := by
  refine ⟨fun shuffled hperm scoreFn => ?_, fun entries shuffled hperm => ?_,
    fun hcandidates scoreFn ref => ?_⟩
  · exact (rankSkillsBy_perm scoreFn hperm.symm candidates.nodup).symm
  · exact ⟨(topIds_perm config _ hperm.symm entries.nodup).symm,
      (topIds_perm config _ hperm.symm entries.nodup).symm⟩
  · rw [proposed_iff, Table.mem_keys]
    constructor
    · rintro ⟨stats, hrow, hretire⟩
      obtain ⟨hsamples, status, hstatus⟩ := hcandidates ref stats hrow
      obtain ⟨-, lib', hlib', -⟩ :=
        maybeBench_moves hstatus ((decision_of_samples hsamples config).mp hretire)
      exact ⟨⟨stats, hrow⟩, lib', hlib'⟩
    · rintro ⟨⟨stats, hrow⟩, lib', hlib'⟩
      obtain ⟨hsamples, -⟩ := hcandidates ref stats hrow
      exact ⟨stats, hrow, (decision_of_samples hsamples config).mpr (maybeBench_eq_ok hlib').2⟩

/-- Thirty failures with a version against thirty successes without it. -/
def harmful : Evidence where
  samples _ := (⟨0, 30⟩, ⟨30, 30⟩)
  interval _ _ := some (-1, -84 / 100)
  now := 0

/-- A version without a `status.json`, which loads as a draft. -/
def unstatused : Library where
  entries :=
    { rows := [(⟨"s", 1⟩, { version := { taskClass := "t", usesUnique := List.nodup_nil } })]
      nodup := List.nodup_singleton _ }
  index := .empty
  queue := []

/-- Such a version is proposed, and benching it raises. -/
theorem unstatused_not_benched :
    unstatused.iterLoaded.map (fun row => (row.1, row.2.loaded.lifecycle)) =
        [(⟨"s", 1⟩, .draft)] ∧
      (⟨"s", 1⟩ : SkillRef) ∈ (proposeRetirements {} (rankSkillsBy none
        [(⟨"s", 1⟩, { contribution := contributionOf harmful ⟨"s", 1⟩ })])).map
          RetirementProposal.ref ∧
      (maybeBenchOnContribution {} harmful ⟨"s", 1⟩ unstatused).isOk = false := by
  decide +kernel

end Recertia.Skill
