import Recertia.Evals.Observations

/-! What the rows of faithfulness probes change in the answers of the eval store. -/
namespace Recertia.Evals

open Graph (Arm)
open Keyset
open Skill (BinomialSample SkillRef)

/-- Stores that differ in tagged rows only. -/
def Alike (A B : EvalStore) : Prop :=
  ∀ row : Row, row.2.tagged = false → (row ∈ A.rows ↔ row ∈ B.rows)

section Select

theorem stamp_nodup (store : EvalStore) : (store.rows.map stamp).Nodup := by
  have hids : store.rows.map Prod.fst = (store.rows.map stamp).map fun s => (ofLex s).2 := by
    rw [List.map_map]
    rfl
  have hnodup := store.nodup
  rw [hids] at hnodup
  exact hnodup.of_map _

theorem ordered_congr {A B : EvalStore} (h : Alike A B) {keep : Row → Bool}
    (hkeep : ∀ row, keep row = true → row.2.tagged = false) :
    (order stamp A.rows).filter keep = (order stamp B.rows).filter keep := by
  have hA := (descending_order (stamp_nodup A)).filter keep
  have hB := (descending_order (stamp_nodup B)).filter keep
  apply hA.eq_of_mem_iff hB
  intro row
  rw [List.mem_filter, List.mem_filter, mem_order, mem_order]
  constructor
  · exact fun hrow => ⟨(h row (hkeep row hrow.2)).mp hrow.1, hrow.2⟩
  · exact fun hrow => ⟨(h row (hkeep row hrow.2)).mpr hrow.1, hrow.2⟩

/-- A query that leaves the tagged rows out is the same on both stores. -/
theorem select_congr {A B : EvalStore} (h : Alike A B) {keep : Observation → Bool}
    (hkeep : ∀ o, keep o = true → o.tagged = false) : select A keep = select B keep := by
  have hrows : (order stamp A.rows).filter (fun row => keep row.2) =
      (order stamp B.rows).filter (fun row => keep row.2) :=
    ordered_congr h fun row => hkeep row.2
  rw [select, select, hrows]

theorem tagged_of_notLikeTag {o : Observation} (h : o.notLikeTag = true) : o.tagged = false := by
  rw [Observation.notLikeTag] at h
  rw [Observation.tagged, ← Bool.not_eq_true, List.isPrefixOf_iff_prefix]
  intro hprefix
  cases hstrategy : o.strategy with
  | none =>
    rw [hstrategy] at hprefix
    have hnil := List.prefix_nil.mp hprefix
    cases hnil
  | some strategy =>
    rw [hstrategy] at hprefix h
    have hlower := hprefix.map Char.toLower
    have hsame : faithfulnessPrefix.map Char.toLower = faithfulnessPrefix := by decide
    rw [hsame] at hlower
    rw [Option.all_some, Bool.not_eq_true', ← Bool.not_eq_true, List.isPrefixOf_iff_prefix] at h
    exact h hlower

theorem tagged_of_liftRow {taskClass : String} {snapshotId : Option String} {o : Observation}
    (h : liftRow taskClass snapshotId o = true) : o.tagged = false := by
  simp only [liftRow, Bool.and_eq_true] at h
  exact tagged_of_notLikeTag h.1.2

theorem tagged_of_contributionRow {taskClass : String} {snapshotId : Option String} {arm : Arm}
    {o : Observation} (h : contributionRow taskClass snapshotId arm o = true) :
    o.tagged = false := by
  simp only [contributionRow, Bool.and_eq_true] at h
  exact tagged_of_notLikeTag h.1.2

theorem select_and (store : EvalStore) (keep q : Observation → Bool) :
    (select store fun o => keep o && q o) = (select store keep).filter q := by
  rw [select, select, List.filter_map, List.filter_filter]
  congr 1
  apply List.filter_congr
  intro row _
  exact Bool.and_comm _ _

theorem untagged_congr {A B : EvalStore} (h : Alike A B) (keep : Observation → Bool) :
    (select A keep).filter (fun o => !o.tagged) = (select B keep).filter fun o => !o.tagged := by
  rw [← select_and A keep fun o => !o.tagged, ← select_and B keep fun o => !o.tagged]
  apply select_congr h
  intro o ho
  rw [Bool.and_eq_true, Bool.not_eq_true'] at ho
  exact ho.2

/-- A sample is made of its tagged and of its untagged rows. -/
theorem sample_split (store : EvalStore) (keep : Observation → Bool) :
    (sample (select store keep)).trials =
        (sample (select store fun o => keep o && o.tagged)).trials +
          (sample ((select store keep).filter fun o => !o.tagged)).trials ∧
      (sample (select store keep)).successes =
        (sample (select store fun o => keep o && o.tagged)).successes +
          (sample ((select store keep).filter fun o => !o.tagged)).successes := by
  rw [select_and store keep Observation.tagged]
  constructor
  · exact List.length_eq_length_filter_add Observation.tagged
  · exact List.countP_eq_countP_filter_add _ _ _

end Select

section Streaks

variable (store : EvalStore)

/-- The rows of the live mix that name a version, the latest first. -/
def rowsOf (ref : SkillRef) : List Row :=
  (order stamp store.rows).filter fun row =>
    decide (row.2.arm = .treatment) && !row.2.isEvalFixture && decide (row.2.ref? = some ref)

theorem descending_rowsOf (ref : SkillRef) : Descending stamp (rowsOf store ref) :=
  (descending_order (stamp_nodup store)).filter _

theorem mem_fieldRows {ref : SkillRef} {row : Row} :
    (ref, row) ∈ fieldRows store ↔ row ∈ rowsOf store ref := by
  rw [fieldRows, rowsOf, List.mem_filterMap, List.mem_filter, mem_order]
  constructor
  · rintro ⟨other, hmem, heq⟩
    split at heq
    · rename_i hlive
      obtain ⟨named, hnamed, hrow⟩ := Option.map_eq_some_iff.mp heq
      simp only [Prod.mk.injEq] at hrow
      obtain ⟨rfl, rfl⟩ := hrow
      refine ⟨hmem, ?_⟩
      rw [decide_eq_true hlive.1, hlive.2, hnamed]
      simp
    · cases heq
  · rintro ⟨hmem, hkeep⟩
    rw [Bool.and_eq_true, Bool.and_eq_true, decide_eq_true_eq, decide_eq_true_eq,
      Bool.not_eq_true'] at hkeep
    refine ⟨row, hmem, ?_⟩
    rw [if_pos hkeep.1, hkeep.2]
    rfl

theorem fieldKey_nodup : ((fieldRows store).map fieldKey).Nodup := by
  have hids : ((fieldRows store).map fun row => row.2.1).Nodup := by
    have hsub : ((fieldRows store).map fun row => row.2.1).Sublist (store.rows.map Prod.fst) := by
      rw [fieldRows]
      induction store.rows with
      | nil => exact List.Sublist.refl _
      | cons row rows ih =>
        rw [List.map_cons, List.filterMap_cons]
        split
        · exact ih.cons _
        · rename_i named hnamed
          split at hnamed
          · obtain ⟨ref, -, rfl⟩ := Option.map_eq_some_iff.mp hnamed
            exact ih.cons_cons _
          · cases hnamed
    exact store.nodup.sublist hsub
  have hkey : ((fieldRows store).map fun row => row.2.1) =
      ((fieldRows store).map fieldKey).map fun key => (ofLex (ofLex key).2).2 := by
    rw [List.map_map]
    rfl
  rw [hkey] at hids
  exact hids.of_map _

/-- The rows of one version stand in the order of the query as the latest first. -/
theorem filter_fieldRows (ref : SkillRef) :
    ((order fieldKey (fieldRows store)).filter fun row => decide (row.1 = ref)).map Prod.snd =
      rowsOf store ref := by
  have hdesc := (descending_order (fieldKey_nodup store)).filter fun row => decide (row.1 = ref)
  have hrows : Descending stamp
      (((order fieldKey (fieldRows store)).filter fun row => decide (row.1 = ref)).map
        Prod.snd) := by
    rw [Descending, List.pairwise_map]
    refine List.Pairwise.imp_of_mem (fun {a b} ha hb hlt => ?_) hdesc
    have href : a.1 = b.1 := by
      have ha' := of_decide_eq_true (List.mem_filter.mp ha).2
      have hb' := of_decide_eq_true (List.mem_filter.mp hb).2
      rw [ha', hb']
    rcases Prod.Lex.toLex_lt_toLex.mp hlt with hfirst | ⟨-, hsecond⟩
    · rw [href] at hfirst
      exact absurd hfirst (lt_irrefl _)
    · exact hsecond
  apply hrows.eq_of_mem_iff (descending_rowsOf store ref)
  intro row
  rw [List.mem_map, ← mem_fieldRows]
  constructor
  · rintro ⟨⟨named, other⟩, hmem, rfl⟩
    obtain ⟨hfield, href⟩ := List.mem_filter.mp hmem
    rw [mem_order] at hfield
    rw [← of_decide_eq_true href]
    exact hfield
  · intro hfield
    refine ⟨(ref, row), List.mem_filter.mpr ⟨?_, decide_eq_true rfl⟩, rfl⟩
    rw [mem_order]
    exact hfield

/-- A streak after the rows of its version. -/
def continued (seen : Option ℕ) (rows : List Row) : Option ℕ :=
  if rows.isEmpty then seen
  else some (seen.getD 0 + (rows.takeWhile fun row => row.2.fails).length)

theorem fails_of_breaks {o : Observation} (h : o.breaks = true) : o.fails = false := by
  rw [Observation.breaks, decide_eq_true_eq] at h
  rw [Observation.fails, decide_eq_false_iff_not]
  rcases h with h | h <;> rw [h] <;> decide

theorem streakStep_other {state : StreakState} {row : SkillRef × Row} {ref : SkillRef}
    (h : row.1 ≠ ref) : (streakStep state row).streaks ref = state.streaks ref ∧
      (streakStep state row).broken.contains ref = state.broken.contains ref := by
  have hbreak : (state.breakAt row.1).streaks ref = state.streaks ref ∧
      (state.breakAt row.1).broken.contains ref = state.broken.contains ref := by
    refine ⟨Function.update_of_ne (Ne.symm h) _ _, ?_⟩
    rw [StreakState.breakAt, List.contains_cons, beq_eq_false_iff_ne.mpr (Ne.symm h),
      Bool.false_or]
  rw [streakStep]
  split
  · exact ⟨rfl, rfl⟩
  · split
    · exact hbreak
    · split
      · exact ⟨Function.update_of_ne (Ne.symm h) _ _, rfl⟩
      · exact hbreak

theorem foldl_streakStep (rows : List (SkillRef × Row)) (state : StreakState) (ref : SkillRef) :
    (rows.foldl streakStep state).streaks ref =
      if state.broken.contains ref then state.streaks ref
      else continued (state.streaks ref)
        ((rows.filter fun row => decide (row.1 = ref)).map Prod.snd) := by
  induction rows generalizing state with
  | nil =>
    rw [List.foldl_nil]
    split <;> rfl
  | cons row rows ih =>
    rw [List.foldl_cons, ih]
    by_cases href : row.1 = ref
    · subst href
      have hfilter : ((row :: rows).filter fun other => decide (other.1 = row.1)) =
          row :: rows.filter fun other => decide (other.1 = row.1) :=
        List.filter_cons_of_pos (decide_eq_true rfl)
      rw [hfilter, List.map_cons, streakStep]
      cases hbroken : state.broken.contains row.1 with
      | true => rw [if_pos rfl, hbroken, if_pos rfl, if_pos rfl]
      | false =>
        have hstop : row.2.2.fails = false →
            (if (state.breakAt row.1).broken.contains row.1 then
              (state.breakAt row.1).streaks row.1
            else continued ((state.breakAt row.1).streaks row.1)
              ((rows.filter fun other => decide (other.1 = row.1)).map Prod.snd)) =
            continued (state.streaks row.1)
              (row.2 :: (rows.filter fun other => decide (other.1 = row.1)).map Prod.snd) := by
          intro hfails
          have hin : (state.breakAt row.1).broken.contains row.1 = true := by
            rw [StreakState.breakAt, List.contains_cons, beq_self_eq_true, Bool.true_or]
          rw [if_pos hin, continued, List.takeWhile_cons, hfails]
          exact Function.update_self ..
        rw [if_neg Bool.false_ne_true, if_neg Bool.false_ne_true]
        cases hbreaks : row.2.2.breaks with
        | true =>
          rw [if_pos rfl]
          exact hstop (fails_of_breaks hbreaks)
        | false =>
          rw [if_neg Bool.false_ne_true]
          cases hfails : row.2.2.fails with
          | false =>
            rw [if_neg Bool.false_ne_true]
            exact hstop hfails
          | true =>
            rw [if_pos rfl]
            dsimp only
            rw [hbroken, if_neg Bool.false_ne_true, Function.update_self, continued, continued,
              List.takeWhile_cons, hfails, if_pos rfl, List.length_cons, List.isEmpty_cons,
              if_neg Bool.false_ne_true, Option.getD_some]
            cases (rows.filter fun other => decide (other.1 = row.1)).map Prod.snd with
            | nil => rfl
            | cons next rest =>
              rw [List.isEmpty_cons, if_neg Bool.false_ne_true, Nat.add_assoc, Nat.add_comm 1]
    · obtain ⟨hstreaks, hbroken⟩ : (streakStep state row).streaks ref = state.streaks ref ∧
          (streakStep state row).broken.contains ref = state.broken.contains ref :=
        streakStep_other href
      have hskip : ¬ decide (row.1 = ref) = true := by simpa using href
      rw [hstreaks, hbroken, List.filter_cons, if_neg hskip]

theorem fieldFailureStreaks_eq (ref : SkillRef) :
    fieldFailureStreaks store ref = continued none (rowsOf store ref) := by
  rw [fieldFailureStreaks, foldl_streakStep, filter_fieldRows]
  rfl

/-- No row of the version that breaks its streak is as late. -/
def stands (rows : List Row) (row : Row) : Bool :=
  rows.all fun other => other.2.fails || decide (stamp other < stamp row)

/-- The tagged failures that are counted. -/
def added (ref : SkillRef) : ℕ :=
  (rowsOf store ref).countP fun row => row.2.tagged && stands (rowsOf store ref) row

def untaggedOf (ref : SkillRef) : List Row := (rowsOf store ref).filter fun row => !row.2.tagged

/-- The untagged failures that a tagged row keeps from being counted. -/
def hidden (ref : SkillRef) : ℕ :=
  (untaggedOf store ref).countP fun row =>
    stands (untaggedOf store ref) row && !stands (rowsOf store ref) row

/-- The streak of the untagged rows alone. -/
def streakWithout (ref : SkillRef) : ℕ :=
  ((untaggedOf store ref).takeWhile fun row => row.2.fails).length

theorem length_takeWhile_fails {rows : List Row} (h : Descending stamp rows) :
    (rows.takeWhile fun row => row.2.fails).length = rows.countP (stands rows) := by
  rw [h.takeWhile_eq_filter, ← List.countP_eq_length_filter]
  rfl

theorem continued_none_eq_iff {xs ys : List Row} : continued none xs = continued none ys ↔
    (xs = [] ↔ ys = []) ∧ (xs.takeWhile fun row => row.2.fails).length =
      (ys.takeWhile fun row => row.2.fails).length := by
  have hcons : ∀ row rest, continued none (row :: rest) =
      some ((row :: rest).takeWhile fun row : Row => row.2.fails).length := by
    intro row rest
    rw [continued, List.isEmpty_cons, if_neg Bool.false_ne_true, Option.getD_none, Nat.zero_add]
  cases xs with
  | nil =>
    cases ys with
    | nil => exact iff_of_true rfl ⟨Iff.rfl, rfl⟩
    | cons y ys =>
      rw [hcons]
      refine iff_of_false (fun heq => by cases heq) fun hboth => ?_
      exact absurd (hboth.1.mp rfl) (List.cons_ne_nil _ _)
  | cons x xs =>
    cases ys with
    | nil =>
      rw [hcons]
      refine iff_of_false (fun heq => by cases heq) fun hboth => ?_
      exact absurd (hboth.1.mpr rfl) (List.cons_ne_nil _ _)
    | cons y ys =>
      have hnames : (x :: xs = [] ↔ y :: ys = []) :=
        iff_of_false (List.cons_ne_nil _ _) (List.cons_ne_nil _ _)
      rw [hcons, hcons, Option.some.injEq]
      exact ⟨fun heq => ⟨hnames, heq⟩, fun hboth => hboth.2⟩

/-- Tagged rows add to the streak and take from it. -/
theorem streak_balance (ref : SkillRef) :
    ((rowsOf store ref).takeWhile fun row => row.2.fails).length + hidden store ref =
      added store ref + streakWithout store ref := by
  have hdesc := descending_rowsOf store ref
  have hwithout : streakWithout store ref =
      (untaggedOf store ref).countP (stands (untaggedOf store ref)) :=
    length_takeWhile_fails (hdesc.filter _)
  -- Where a row stands among all it stands among the untagged.
  have hmono : ∀ row, stands (rowsOf store ref) row = true →
      stands (untaggedOf store ref) row = true := by
    intro row hrow
    rw [stands, List.all_eq_true] at hrow ⊢
    exact fun other hother => hrow other (List.mem_filter.mp hother).1
  have hcounted : (untaggedOf store ref).countP (stands (untaggedOf store ref)) =
      (untaggedOf store ref).countP (stands (rowsOf store ref)) + hidden store ref := by
    have hsplit := List.countP_eq_countP_filter_add (untaggedOf store ref)
      (stands (untaggedOf store ref)) (stands (rowsOf store ref))
    have hboth : ((untaggedOf store ref).filter (stands (rowsOf store ref))).countP
        (stands (untaggedOf store ref)) =
          (untaggedOf store ref).countP (stands (rowsOf store ref)) := by
      rw [List.countP_filter]
      apply List.countP_congr
      intro row _
      rw [Bool.and_eq_true]
      exact ⟨fun hrow => hrow.2, fun hrow => ⟨hmono row hrow, hrow⟩⟩
    rw [hsplit, hboth, hidden, List.countP_filter]
  have hall : (rowsOf store ref).countP (stands (rowsOf store ref)) =
      added store ref + (untaggedOf store ref).countP (stands (rowsOf store ref)) := by
    have hsplit := List.countP_eq_countP_filter_add (rowsOf store ref)
      (stands (rowsOf store ref)) fun row => row.2.tagged
    have htagged : ((rowsOf store ref).filter fun row => row.2.tagged).countP
        (stands (rowsOf store ref)) = added store ref := by
      rw [List.countP_filter, added]
      apply List.countP_congr
      intro row _
      rw [Bool.and_comm]
    rw [hsplit, htagged]
    rfl
  rw [length_takeWhile_fails hdesc]
  omega

end Streaks

section Answers

variable (F : Type) [Div F] [Sub F] [NatCast F]

/-- The queries of lift, contribution, retrieval ablation and field streaks give the same. -/
structure SameAnswers (A B : EvalStore) : Prop where
  arms : ∀ taskClass snapshotId, armCounts A taskClass snapshotId = armCounts B taskClass snapshotId
  vectors : ∀ taskClass snapshotId, (successVectors A taskClass snapshotId : Arm → Option (List F)) =
    successVectors B taskClass snapshotId
  rateMap : ∀ taskClass snapshotId,
    (snapshotRateMap A taskClass snapshotId : Arm → Option (List (String × F))) =
      snapshotRateMap B taskClass snapshotId
  rates : ∀ taskClass snapshotId, (snapshotRates A taskClass snapshotId : Arm → Option (List F)) =
    snapshotRates B taskClass snapshotId
  variance : ∀ taskClass snapshotId,
    (varianceInputs A taskClass snapshotId : List F × List F × List F × SeriesKind) =
      varianceInputs B taskClass snapshotId
  series : ∀ taskClass snapshotId, (armRateSeries A taskClass snapshotId : List F × List F) =
    armRateSeries B taskClass snapshotId
  contribution : ∀ taskClass snapshotId ref,
    contributionSamples A taskClass snapshotId ref = contributionSamples B taskClass snapshotId ref
  bulk : ∀ taskClass snapshotId,
    contributionSamplesBulk A taskClass snapshotId = contributionSamplesBulk B taskClass snapshotId
  ablation : ∀ taskClass snapshotId,
    retrievalAblationSamples A taskClass snapshotId = retrievalAblationSamples B taskClass snapshotId
  streaks : fieldFailureStreaks A = fieldFailureStreaks B

/-- The tagged rows that one side of the retrieval ablation counts. -/
def taggedAblation (store : EvalStore) (taskClass : String) (snapshotId : Option String)
    (arm : Arm) : BinomialSample :=
  sample (select store fun o => ablationRow taskClass snapshotId arm o && o.tagged)

/-- The tagged rows of the two stores weigh the same: as many with valid evidence, and as many
successes among them, on either side of the ablation, and in the live mix of each version as many
failures that they add to its streak, less those that they keep from it. -/
structure Balanced (A B : EvalStore) : Prop where
  ablation : ∀ taskClass snapshotId arm, arm = .treatment ∨ arm = .control →
    taggedAblation A taskClass snapshotId arm = taggedAblation B taskClass snapshotId arm
  named : ∀ ref, rowsOf A ref = [] ↔ rowsOf B ref = []
  streaks : ∀ ref, added A ref + hidden B ref = added B ref + hidden A ref

variable {A B : EvalStore}

theorem ablation_iff (h : Alike A B) (taskClass : String) (snapshotId : Option String) (arm : Arm) :
    sample (select A (ablationRow taskClass snapshotId arm)) =
        sample (select B (ablationRow taskClass snapshotId arm)) ↔
      taggedAblation A taskClass snapshotId arm = taggedAblation B taskClass snapshotId arm := by
  obtain ⟨htrialsA, hsuccessesA⟩ := sample_split A (ablationRow taskClass snapshotId arm)
  obtain ⟨htrialsB, hsuccessesB⟩ := sample_split B (ablationRow taskClass snapshotId arm)
  rw [untagged_congr h] at htrialsA hsuccessesA
  have hext : ∀ s t : BinomialSample, s = t ↔ s.successes = t.successes ∧ s.trials = t.trials := by
    intro s t
    cases s
    cases t
    rw [Skill.BinomialSample.mk.injEq]
  rw [hext, hext, taggedAblation, taggedAblation]
  omega

theorem streak_iff (h : Alike A B) (ref : SkillRef) :
    fieldFailureStreaks A ref = fieldFailureStreaks B ref ↔
      (rowsOf A ref = [] ↔ rowsOf B ref = []) ∧
        added A ref + hidden B ref = added B ref + hidden A ref := by
  have huntagged : untaggedOf A ref = untaggedOf B ref := by
    rw [untaggedOf, untaggedOf, rowsOf, rowsOf, List.filter_filter, List.filter_filter]
    apply ordered_congr h
    intro row hrow
    rw [Bool.and_eq_true, Bool.not_eq_true'] at hrow
    exact hrow.1
  have hwithout : streakWithout A ref = streakWithout B ref := by
    rw [streakWithout, streakWithout, huntagged]
  -- Both streaks differ from the same number by what their tagged rows weigh.
  have hA := streak_balance A ref
  have hB := streak_balance B ref
  rw [hwithout] at hA
  rw [fieldFailureStreaks_eq, fieldFailureStreaks_eq, continued_none_eq_iff]
  apply and_congr_right
  intro _
  omega

theorem contributionSamples_congr (h : Alike A B) (taskClass : String)
    (snapshotId : Option String) (ref : SkillRef) :
    contributionSamples A taskClass snapshotId ref =
      contributionSamples B taskClass snapshotId ref := by
  have hselect : ∀ arm, select A (contributionRow taskClass snapshotId arm) =
      select B (contributionRow taskClass snapshotId arm) := fun arm =>
    select_congr h fun o => tagged_of_contributionRow
  rw [contributionSamples, contributionSamples, select_and, select_and, select_and, select_and,
    hselect, hselect]

theorem streaks_congr (h : Alike A B) (hbalanced : Balanced A B) :
    fieldFailureStreaks A = fieldFailureStreaks B := by
  funext ref
  exact (streak_iff h ref).mpr ⟨hbalanced.named ref, hbalanced.streaks ref⟩

/-- The queries that leave tagged rows out do not see them; the others see no difference exactly
where these weigh the same. -/
theorem same_answers_iff (h : Alike A B) : SameAnswers F A B ↔ Balanced A B := by
  constructor
  · intro hsame
    refine ⟨fun taskClass snapshotId arm harm => ?_, fun ref => ?_, fun ref => ?_⟩
    · have hsides := hsame.ablation taskClass snapshotId
      rw [retrievalAblationSamples, retrievalAblationSamples, Prod.mk.injEq] at hsides
      apply (ablation_iff h taskClass snapshotId arm).mp
      rcases harm with rfl | rfl
      · exact hsides.1
      · exact hsides.2
    · exact ((streak_iff h ref).mp (congrFun hsame.streaks ref)).1
    · exact ((streak_iff h ref).mp (congrFun hsame.streaks ref)).2
  · intro hbalanced
    have hlift : ∀ taskClass snapshotId, select A (liftRow taskClass snapshotId) =
        select B (liftRow taskClass snapshotId) := fun taskClass snapshotId =>
      select_congr h fun o => tagged_of_liftRow
    have hvectors : ∀ taskClass snapshotId,
        (successVectors A taskClass snapshotId : Arm → Option (List F)) =
          successVectors B taskClass snapshotId := by
      intro taskClass snapshotId
      rw [successVectors, successVectors, List.filter_reverse, List.filter_reverse, untagged_congr h]
    have hmap : ∀ taskClass snapshotId,
        (snapshotRateMap A taskClass snapshotId : Arm → Option (List (String × F))) =
          snapshotRateMap B taskClass snapshotId := by
      intro taskClass snapshotId
      rw [snapshotRateMap, snapshotRateMap, hlift]
    have hvariance : ∀ taskClass snapshotId,
        (varianceInputs A taskClass snapshotId : List F × List F × List F × SeriesKind) =
          varianceInputs B taskClass snapshotId := by
      intro taskClass snapshotId
      rw [varianceInputs, varianceInputs, hmap, hvectors]
    have hcontribution : ∀ taskClass snapshotId arm,
        select A (contributionRow taskClass snapshotId arm) =
          select B (contributionRow taskClass snapshotId arm) := fun taskClass snapshotId arm =>
      select_congr h fun o => tagged_of_contributionRow
    refine
      { arms := fun taskClass snapshotId => ?_
        vectors := hvectors
        rateMap := hmap
        rates := fun taskClass snapshotId => ?_
        variance := hvariance
        series := fun taskClass snapshotId => ?_
        contribution := fun taskClass snapshotId ref => ?_
        bulk := fun taskClass snapshotId => ?_
        ablation := fun taskClass snapshotId => ?_
        streaks := ?_ }
    · rw [armCounts, armCounts, hlift]
    · funext arm
      rw [snapshotRates, snapshotRates, hmap]
    · rw [armRateSeries, armRateSeries, hvariance]
    · exact contributionSamples_congr h taskClass snapshotId ref
    · funext ref
      rw [contributionSamplesBulk, contributionSamplesBulk, hcontribution, hcontribution]
    · have henabled := hbalanced.ablation taskClass snapshotId .treatment (Or.inl rfl)
      have hsuppressed := hbalanced.ablation taskClass snapshotId .control (Or.inr rfl)
      rw [retrievalAblationSamples, retrievalAblationSamples,
        (ablation_iff h taskClass snapshotId .treatment).mpr henabled,
        (ablation_iff h taskClass snapshotId .control).mpr hsuppressed]
    · exact streaks_congr h hbalanced

end Answers

section Decisions

variable {A B : EvalStore}

/-- Tagged rows that are fixtures, as the harness writes them, weigh nothing. -/
theorem balanced_of_fixtures (h : Alike A B)
    (hA : ∀ row ∈ A.rows, row.2.tagged = true → row.2.isEvalFixture = true)
    (hB : ∀ row ∈ B.rows, row.2.tagged = true → row.2.isEvalFixture = true) : Balanced A B := by
  have hnone : ∀ store : EvalStore,
      (∀ row ∈ store.rows, row.2.tagged = true → row.2.isEvalFixture = true) →
      ∀ taskClass snapshotId arm, taggedAblation store taskClass snapshotId arm = sample [] := by
    intro store hfixtures taskClass snapshotId arm
    have hempty : ((order stamp store.rows).filter fun row =>
        ablationRow taskClass snapshotId arm row.2 && row.2.tagged) = [] := by
      apply List.filter_eq_nil_iff.mpr
      intro row hrow hkeep
      simp only [ablationRow, Bool.and_eq_true, Bool.not_eq_true'] at hkeep
      have hfixture := hfixtures row (mem_order.mp hrow) hkeep.2
      rw [hkeep.1.1.1.2] at hfixture
      cases hfixture
    rw [taggedAblation, select, hempty, List.map_nil]
  have hrows : ∀ ref, rowsOf A ref = rowsOf B ref := by
    intro ref
    apply (descending_rowsOf A ref).eq_of_mem_iff (descending_rowsOf B ref)
    intro row
    rw [rowsOf, rowsOf, List.mem_filter, List.mem_filter, mem_order, mem_order, Bool.and_eq_true,
      Bool.and_eq_true, Bool.not_eq_true']
    -- A row of the live mix is no fixture, so it has no tag.
    have hplain : ∀ store : EvalStore,
        (∀ row ∈ store.rows, row.2.tagged = true → row.2.isEvalFixture = true) →
        row ∈ store.rows → row.2.isEvalFixture = false → row.2.tagged = false := by
      intro store hfixtures hmem hlive
      rw [← Bool.not_eq_true]
      intro htagged
      rw [hfixtures row hmem htagged] at hlive
      cases hlive
    constructor
    · exact fun hrow => ⟨(h row (hplain A hA hrow.1 hrow.2.1.2)).mp hrow.1, hrow.2⟩
    · exact fun hrow => ⟨(h row (hplain B hB hrow.1 hrow.2.1.2)).mpr hrow.1, hrow.2⟩
  refine ⟨fun taskClass snapshotId arm _ => ?_, fun ref => ?_, fun ref => ?_⟩
  · rw [hnone A hA, hnone B hB]
  · rw [hrows]
  · have huntagged : untaggedOf A ref = untaggedOf B ref := by
      rw [untaggedOf, untaggedOf, hrows]
    rw [added, added, hidden, hidden, huntagged, hrows]

end Decisions

section Examples

def applied (terminal : String) : Observation where
  taskClass := "repo-chore"
  snapshotId := "snap"
  firstAttemptSuccess := decide (terminal = "solved")
  terminal := some terminal
  skillId := some "s"
  skillVersion := some 1
  validNonJudgeEvidence := true
  recordedAt := "2026-08-01T00:00:00+00:00"

def probe (isEvalFixture : Bool) : Observation :=
  { applied "unsolved" with
    strategy := some "faithfulness:empty"
    isEvalFixture := isEvalFixture
    recordedAt := "2026-08-02T00:00:00+00:00" }

def oneRun : EvalStore := ⟨[("run-1", applied "solved")], by decide⟩

/-- The same with a probe beside it. -/
def probed (isEvalFixture : Bool) : EvalStore :=
  ⟨[("run-1", applied "solved"), ("probe-1", probe isEvalFixture)], by decide +revert⟩

theorem alike_probed (isEvalFixture : Bool) : Alike (probed isEvalFixture) oneRun := by
  intro row hrow
  have hprobe : (probe isEvalFixture).tagged = true := by decide +revert
  rw [probed, oneRun, List.mem_cons, List.mem_singleton, List.mem_singleton]
  constructor
  · rintro (hfirst | rfl)
    · exact hfirst
    · rw [hprobe] at hrow
      cases hrow
  · exact Or.inl

theorem same_answers_fixture : SameAnswers ℚ (probed true) oneRun := by
  apply (same_answers_iff ℚ (alike_probed true)).mpr
  apply balanced_of_fixtures (alike_probed true)
  · intro row hrow htagged
    rcases List.mem_cons.mp hrow with rfl | hrow
    · exact absurd htagged (by decide)
    · rw [List.mem_singleton.mp hrow]
      rfl
  · intro row hrow htagged
    rw [List.mem_singleton.mp hrow] at htagged
    exact absurd htagged (by decide)

/-- A probe that is recorded without the fixture flag starts a streak of field failures. -/
theorem not_same_answers_probed : ¬ ∀ A B : EvalStore, Alike A B → SameAnswers ℚ A B := by
  intro h
  have hstreaks := (h (probed false) oneRun (alike_probed false)).streaks
  have hone := congrFun hstreaks ⟨"s", 1⟩
  exact absurd hone (by decide +kernel)

end Examples

end Recertia.Evals
