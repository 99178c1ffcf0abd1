import Recertia.Evals.Interference
import Recertia.Lib.GroupBy

/-! The contribution samples of every version from two grouped scans, and those of one version
from two filtered queries. -/
namespace Recertia.Evals

open Graph (Arm)
open Skill (BinomialSample SkillRef)

/-- The version that a row suppresses, if both columns are set. -/
def Observation.suppressedRef? (o : Observation) : Option SkillRef :=
  match o.suppressedSkillId, o.suppressedSkillVersion with
  | some skillId, some version => some ⟨skillId, version⟩
  | _, _ => none

/-- `pair[0] = sample` -/
def setShadow (s : BinomialSample) (pair : BinomialSample × BinomialSample) :
    BinomialSample × BinomialSample := (s, pair.2)

/-- `pair[1] = sample` -/
def setSuppression (s : BinomialSample) (pair : BinomialSample × BinomialSample) :
    BinomialSample × BinomialSample := (pair.1, s)

variable (store : EvalStore) (taskClass : String) (snapshotId : Option String)

/-- `contribution_samples_bulk` as it is computed, two scans merged into one dictionary. -/
def contributionSamplesMerged : Table SkillRef (BinomialSample × BinomialSample) :=
  let shadowRows := GroupBy.groups Observation.ref? sample
    (select store (contributionRow taskClass snapshotId .shadow))
  let suppressionRows := GroupBy.groups Observation.suppressedRef? sample
    (select store (contributionRow taskClass snapshotId .control))
  let out := GroupBy.mergeInto setShadow ({}, {}) Table.empty shadowRows
  GroupBy.mergeInto setSuppression ({}, {}) out suppressionRows

theorem applied_eq (o : Observation) (ref : SkillRef) :
    o.applied ref = decide (o.ref? = some ref) := by
  obtain ⟨skillId, version⟩ := ref
  rw [Observation.applied, decide_eq_decide, Observation.ref?]
  cases o.skillId <;> cases o.skillVersion <;> simp

theorem suppressed_eq (o : Observation) (ref : SkillRef) :
    o.suppressed ref = decide (o.suppressedRef? = some ref) := by
  obtain ⟨skillId, version⟩ := ref
  rw [Observation.suppressed, decide_eq_decide, Observation.suppressedRef?]
  cases o.suppressedSkillId <;> cases o.suppressedSkillVersion <;> simp

/-- The rows that the query of one version selects are its group in the scan. -/
theorem select_applied (keep : Observation → Bool) (ref : SkillRef) :
    (select store fun o => keep o && o.applied ref) =
      GroupBy.group Observation.ref? (select store keep) ref := by
  rw [select_and, GroupBy.group]
  exact List.filter_congr fun o _ => applied_eq o ref

theorem select_suppressed (keep : Observation → Bool) (ref : SkillRef) :
    (select store fun o => keep o && o.suppressed ref) =
      GroupBy.group Observation.suppressedRef? (select store keep) ref := by
  rw [select_and, GroupBy.group]
  exact List.filter_congr fun o _ => suppressed_eq o ref

theorem sample_trials_pos {rows : List Observation} : 0 < (sample rows).trials ↔ rows ≠ [] :=
  List.length_pos_iff

/-- What the dictionary holds for a version: its two samples, where one of them has a trial. -/
theorem get?_contributionSamplesMerged (ref : SkillRef) :
    (contributionSamplesMerged store taskClass snapshotId).get? ref =
      if 0 < (contributionSamples store taskClass snapshotId ref).1.trials ∨
          0 < (contributionSamples store taskClass snapshotId ref).2.trials then
        some (contributionSamples store taskClass snapshotId ref)
      else none := by
  have hempty : (Table.empty : Table SkillRef (BinomialSample × BinomialSample)).get? ref = none :=
    Table.get?_eq_none.mpr List.not_mem_nil
  simp only [contributionSamplesMerged, GroupBy.get?_mergeInto_groups, hempty, contributionSamples,
    select_applied, select_suppressed, sample_trials_pos]
  -- An arm without a row of the version leaves its slot as it was.
  by_cases hshadow : GroupBy.group Observation.ref?
      (select store (contributionRow taskClass snapshotId .shadow)) ref = [] <;>
    by_cases hsuppression : GroupBy.group Observation.suppressedRef?
        (select store (contributionRow taskClass snapshotId .control)) ref = []
  · simp [hshadow, hsuppression]
  · simp [hshadow, hsuppression, setSuppression, sample]
  · simp [hshadow, hsuppression, setShadow, sample]
  · simp [hshadow, hsuppression, setShadow, setSuppression]

/-- The dictionary has exactly the versions with a trial in either arm, each with the samples that
the queries of the version give. -/
theorem contribution_bulk_exact :
    (∀ ref, ref ∈ (contributionSamplesMerged store taskClass snapshotId).keys ↔
      0 < (contributionSamples store taskClass snapshotId ref).1.trials ∨
        0 < (contributionSamples store taskClass snapshotId ref).2.trials) ∧
      ∀ ref pair, (contributionSamplesMerged store taskClass snapshotId).get? ref = some pair →
        pair = contributionSamples store taskClass snapshotId ref := by
  constructor
  · intro ref
    rw [← not_iff_not, ← Table.get?_eq_none, get?_contributionSamplesMerged]
    simp
  · intro ref pair hpair
    rw [get?_contributionSamplesMerged] at hpair
    split at hpair
    · exact (Option.some.inj hpair).symm
    · cases hpair

end Recertia.Evals
