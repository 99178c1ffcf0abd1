import Recertia.Skill.Refresh

/-! The cap on the active set: how many versions of a task class are approved and active; and the
gate in front of it: what has to pass before a version is approved. -/
namespace Recertia.Skill

open Fallible

def Library.activeCount (lib : Library) (taskClass : String) : ℕ :=
  lib.entries.count fun _ entry => entry.version.taskClass = taskClass && entry.live

/-- No task class has more live versions than the cap. -/
def WithinCap (config : AutonomyConfig) (lib : Library) : Prop :=
  ∀ taskClass, lib.activeCount taskClass ≤ config.activeCapPerTaskClass

/-- A promotion of a version that may go active, into a class that is full without it. -/
def Overfills (config : AutonomyConfig) (lib : Library) : LibraryOp → Prop
  | .promoteToApproved checks ref => ∃ entry status, lib.get? ref = some entry ∧
      entry.status = some status ∧ status.lifecycle.abortsPromotion = false ∧ checks.Pass entry ∧
      liveMixEligible entry.version entry.loadedStats = true ∧ status.live = false ∧
      config.activeCapPerTaskClass ≤ lib.activeCount entry.version.taskClass
  | _ => False

def Library.empty : Library := { entries := Table.empty, index := Table.empty, queue := [] }

/-- The live versions of a class behind a step are among those before it, but for `extra`. -/
theorem activeCount_le {lib lib' : Library} {taskClass : String} (extra : List SkillRef)
    (h : ∀ ref entry', lib'.get? ref = some entry' → entry'.version.taskClass = taskClass →
      entry'.live = true → ref ∈ extra ∨ ∃ entry, lib.get? ref = some entry ∧
        entry.version.taskClass = taskClass ∧ entry.live = true) :
    lib'.activeCount taskClass ≤ lib.activeCount taskClass + extra.length := by
  apply Table.count_le extra
  intro ref entry' hentry' hlive
  rw [Bool.and_eq_true, decide_eq_true_eq] at hlive
  rcases h ref entry' hentry' hlive.1 hlive.2 with hextra | ⟨entry, hentry, hclass, hbefore⟩
  · exact Or.inl hextra
  · refine Or.inr ⟨entry, hentry, ?_⟩
    rw [Bool.and_eq_true, decide_eq_true_eq]
    exact ⟨hclass, hbefore⟩

/-- A move leaves no version live that was not. -/
theorem Moves.withinCap {dest : SkillRef → Entry → Option Lifecycle} {config : AutonomyConfig}
    {lib lib' : Library} (h : Moves dest lib lib') (hcap : WithinCap config lib) :
    WithinCap config lib' := by
  intro taskClass
  refine le_trans (activeCount_le [] fun ref entry' hentry' hclass hlive => ?_) (hcap taskClass)
  obtain ⟨entry, hentry, hversion, hbefore, -⟩ := h.live_before hentry' hlive
  exact Or.inr ⟨entry, hentry, hversion ▸ hclass, hbefore⟩

theorem withinCap_writeCandidate {config : AutonomyConfig} {ref : SkillRef}
    {version : SkillVersion} {lib lib' : Library} (h : lib.writeCandidate ref version = .ok lib')
    (hcap : WithinCap config lib) : WithinCap config lib' := by
  obtain ⟨-, hget⟩ := writeCandidate_eq_ok h
  intro taskClass
  refine le_trans (activeCount_le [] fun r entry' hentry' hclass hlive => ?_) (hcap taskClass)
  rw [hget r] at hentry'
  split at hentry'
  · cases hentry'
    cases hlive
  · exact Or.inr ⟨entry', hentry', hclass, hlive⟩

/-- Behind a recomputation the live versions of a class are in its top. -/
theorem withinCap_recompute {config : AutonomyConfig} {evidence : Option Evidence}
    {lib lib' : Library} (h : recomputeActiveSet config evidence lib = .ok lib') :
    WithinCap config lib' := by
  obtain ⟨last, hlast, hrefreshed, hnone⟩ := recomputeActiveSet_spec config evidence lib
  cases h.symm.trans hlast
  intro taskClass
  have hle : lib'.activeCount taskClass ≤ Library.empty.activeCount taskClass +
      (topIds config evidence (lib.classRows taskClass)).length := by
    apply activeCount_le
    intro ref entry' hentry' hclass hlive
    cases hentry : lib.get? ref with
    | none =>
      rw [hnone ref hentry] at hentry'
      cases hentry'
    | some entry =>
      obtain ⟨other, hother, hversion, hstanding⟩ := hrefreshed ref entry hentry
      cases hentry'.symm.trans hother
      rw [live_of_standing.mp hlive, refreshedStanding] at hstanding
      obtain ⟨standing, -, heq⟩ := Option.map_eq_some_iff.mp hstanding.symm
      have hactive := (Prod.mk.inj heq).2
      have hsame : entry.version.taskClass = taskClass := hversion ▸ hclass
      exact Or.inl (hsame ▸ (wantedStatus_active hactive).2)
  have hempty : Library.empty.activeCount taskClass = 0 := rfl
  have htop := length_topIds_le config evidence (lib.classRows taskClass)
  omega

theorem get?_putStatus_self {lib : Library} {ref : SkillRef} {entry : Entry}
    (h : lib.get? ref = some entry) (status : SkillStatus) :
    (lib.putStatus ref status).get? ref = some { entry with status := some status } := by
  rw [get?_putStatus, h, Option.map_some, if_pos rfl]

theorem get?_putStatus_other (lib : Library) {ref r : SkillRef} (h : r ≠ ref)
    (status : SkillStatus) : (lib.putStatus ref status).get? r = lib.get? r := by
  rw [get?_putStatus]
  simp only [if_neg h, Option.map_id']

/-- A promotion that goes active joins the live versions of its class. -/
theorem activeCount_lt_promote (checks : Checks) {ref : SkillRef} {lib : Library} {entry : Entry}
    (hentry : lib.get? ref = some entry) (hlive : entry.live = false)
    (heligible : liveMixEligible entry.version entry.loadedStats = true) :
    lib.activeCount entry.version.taskClass <
      (lib.putStatus ref (approvedStatus checks entry)).activeCount entry.version.taskClass := by
  apply Table.count_lt (get?_putStatus_self hentry _)
  · rw [Bool.and_eq_true, decide_eq_true_eq]
    exact ⟨rfl, live_of_standing.mpr (standing_eq_some.mpr ⟨_, rfl, rfl, heligible⟩)⟩
  · intro v hv
    cases hentry.symm.trans hv
    rw [hlive, Bool.and_false]
  · intro r v hv hq
    by_cases hr : r = ref
    · rw [hr] at hv
      cases hentry.symm.trans hv
      rw [hlive, Bool.and_false] at hq
      cases hq
    · exact ⟨v, (get?_putStatus_other lib hr _).trans hv, hq⟩

/-- A promotion adds no other version to the live ones. -/
theorem activeCount_promote_le (checks : Checks) {ref : SkillRef} {lib : Library} {entry : Entry}
    (hentry : lib.get? ref = some entry) (extra : List SkillRef) (taskClass : String)
    (h : entry.version.taskClass = taskClass →
      liveMixEligible entry.version entry.loadedStats = true → ref ∈ extra ∨ entry.live = true) :
    (lib.putStatus ref (approvedStatus checks entry)).activeCount taskClass ≤
      lib.activeCount taskClass + extra.length := by
  apply activeCount_le
  intro r entry' hentry' hclass hlive
  by_cases hr : r = ref
  · rw [hr, get?_putStatus_self hentry] at hentry'
    cases hentry'
    obtain ⟨status, hstatus, -, heligible⟩ := standing_eq_some.mp (live_of_standing.mp hlive)
    cases hstatus
    rcases h hclass heligible with hextra | hbefore
    · exact Or.inl (hr ▸ hextra)
    · exact Or.inr ⟨entry, hr ▸ hentry, hclass, hbefore⟩
  · rw [get?_putStatus_other lib hr] at hentry'
    exact Or.inr ⟨entry', hentry', hclass, hlive⟩

/-- A promotion from within the cap goes over it exactly when it overfills a class. -/
theorem withinCap_promote {config : AutonomyConfig} {checks : Checks} {ref : SkillRef}
    {lib lib' : Library} (h : promoteToApproved checks ref lib = .ok lib')
    (hcap : WithinCap config lib) :
    WithinCap config lib' ↔ ¬ Overfills config lib (.promoteToApproved checks ref) := by
  obtain ⟨entry, status, hentry, hstatus, hpass, haborts, rfl⟩ := promoteToApproved_eq_ok.mp h
  have hsame : entry.live = status.live := by rw [Entry.live, hstatus, Option.any_some]
  constructor
  · rintro hafter ⟨other, status', hother, hstatus', -, -, heligible, hlive, hfull⟩
    cases hentry.symm.trans hother
    cases hstatus.symm.trans hstatus'
    have hlt := activeCount_lt_promote checks hentry (hsame.trans hlive) heligible
    have hbound := hafter entry.version.taskClass
    omega
  · intro hnot taskClass
    have hbefore := hcap taskClass
    by_cases hroom : lib.activeCount taskClass < config.activeCapPerTaskClass
    · have hle := activeCount_promote_le checks hentry [ref] taskClass
        fun _ _ => Or.inl (List.mem_singleton_self _)
      have hone : [ref].length = 1 := rfl
      omega
    · -- The class is full, so the version was live already or does not go active.
      have hle := activeCount_promote_le checks hentry [] taskClass
        fun hclass heligible => by
          right
          by_contra hlive
          rw [hsame, Bool.not_eq_true] at hlive
          exact hnot ⟨entry, status, hentry, hstatus, haborts, hpass, heligible, hlive,
            hclass ▸ Nat.not_lt.mp hroom⟩
      exact hle.trans hbefore

/-- One operation from within the cap goes over it exactly when it overfills a class. -/
theorem withinCap_after_iff {config : AutonomyConfig} {lib : Library} (op : LibraryOp)
    (hcap : WithinCap config lib) :
    WithinCap config (op.after config lib) ↔ ¬ Overfills config lib op := by
  cases op with
  | promoteToApproved checks ref =>
    cases h : promoteToApproved checks ref lib with
    | error e =>
      rw [after_of_error (.promoteToApproved checks ref) h]
      apply iff_of_true hcap
      rintro ⟨entry, status, hentry, hstatus, haborts, hpass, -⟩
      have hok := promoteToApproved_eq_ok.mpr ⟨entry, status, hentry, hstatus, hpass, haborts, rfl⟩
      rw [h] at hok
      cases hok
    | ok lib' =>
      rw [after_of_ok (.promoteToApproved checks ref) h]
      exact withinCap_promote h hcap
  | writeCandidate ref version =>
    exact iff_of_true (after_of_outcomes hcap fun _ h => withinCap_writeCandidate h hcap) id
  | recomputeActiveSet evidence =>
    exact iff_of_true (after_of_outcomes hcap fun _ h => withinCap_recompute h) id
  | drainRevokes maxWrites =>
    exact iff_of_true ((drainRevokes_moves maxWrites lib).1.withinCap hcap) id
  | recertifyFieldFailures streaks =>
    obtain ⟨lib', hlib', hmoves⟩ := recertifyFieldFailures_moves config streaks lib
    rw [after_of_ok (.recertifyFieldFailures streaks) hlib']
    exact iff_of_true (hmoves.withinCap hcap) id
  | recertifyStale toolUpgraded =>
    obtain ⟨lib', hlib', hmoves⟩ := recertifyStale_moves toolUpgraded lib
    rw [after_of_ok (.recertifyStale toolUpgraded) hlib']
    exact iff_of_true (hmoves.withinCap hcap) id
  | restoreBenched now ref =>
    apply iff_of_true (after_of_outcomes hcap fun _ h => ?_) id
    exact (restoreBenched_moves h).2.withinCap hcap
  | enterShadow ref =>
    apply iff_of_true (after_of_outcomes hcap fun _ h => ?_) id
    exact (enterShadow_moves h).2.withinCap hcap
  | maybeAdvanceShadowToCandidate evidence applicable ref =>
    apply iff_of_true (after_of_outcomes hcap fun _ h => ?_) id
    exact (maybeAdvance_moves h).2.withinCap hcap
  | quarantineChildBlocksParents child =>
    apply iff_of_true (after_of_outcomes hcap fun lib' h => ?_) id
    obtain ⟨status, hstatus, -⟩ := bind_eq_ok.mp h
    obtain ⟨last, hlast, hmoves⟩ := quarantineChild_moves hstatus
    cases h.symm.trans hlast
    exact hmoves.withinCap hcap
  | quarantineOnFailures ref failures =>
    apply iff_of_true (after_of_outcomes hcap fun lib' h => ?_) id
    obtain ⟨status, hstatus, -⟩ := bind_eq_ok.mp h
    obtain ⟨last, hlast, hmoves⟩ := quarantineOnFailures_moves config failures hstatus
    cases h.symm.trans hlast
    exact hmoves.withinCap hcap
  | maybeBenchOnContribution evidence ref =>
    apply iff_of_true (after_of_outcomes hcap fun lib' h => ?_) id
    obtain ⟨⟨status, hstatus⟩, hretires⟩ := maybeBench_eq_ok h
    obtain ⟨mid, last, hlast, hbench, hparents⟩ := maybeBench_moves hstatus hretires
    cases h.symm.trans hlast
    exact hparents.withinCap (hbench.withinCap hcap)

/-- From a library within the cap every operation stays within it exactly when none overfills. -/
theorem along_withinCap_iff (config : AutonomyConfig) {lib : Library}
    (hcap : WithinCap config lib) (ops : List LibraryOp) :
    (system config).Along (fun _ _ lib' => WithinCap config lib') lib ops ↔
      (system config).Along (fun lib op _ => ¬ Overfills config lib op) lib ops := by
  have hiff (lib : Library) (op : LibraryOp) (lib' : Library) (hcap : WithinCap config lib)
      (hstep : (system config).step lib op = some lib') :
      WithinCap config lib' ↔ ¬ Overfills config lib op := by
    rw [← step_eq_some.mp hstep]
    exact withinCap_after_iff op hcap
  apply Transition.System.along_iff_of_invariant (I := WithinCap config) _ hiff hcap
  exact fun lib op lib' hcap hstep hnot => (hiff lib op lib' hcap hstep).mpr hnot

theorem withinCap_empty (config : AutonomyConfig) : WithinCap config .empty :=
  fun _ => Nat.zero_le _

/-- Along every sequence of operations from the empty library, each task class has at most the cap of
live versions exactly when no promotion goes active into a class that is full. -/
theorem active_cap_iff (config : AutonomyConfig) (ops : List LibraryOp) :
    (system config).Along (fun _ _ lib' => WithinCap config lib') .empty ops ↔
      (system config).Along (fun lib op _ => ¬ Overfills config lib op) .empty ops :=
  along_withinCap_iff config (withinCap_empty config) ops

namespace ActiveCap

def oneSlot : AutonomyConfig := { activeCapPerTaskClass := 1 }

/-- A version that a human has written. -/
def authored : SkillVersion where
  taskClass := "etl"
  provenance := { curation := .humanAuthored }
  usesUnique := List.nodup_nil

/-- Every check passes. -/
def passing : Checks where
  audit := true
  lintCandidate := fun _ _ => []
  lintApproved := fun _ _ _ => []
  applicable := true
  goldenPassed := true
  certification := {}

def twoPromotions : List LibraryOp :=
  [.writeCandidate ⟨"parse", 1⟩ authored, .promoteToApproved passing ⟨"parse", 1⟩,
   .writeCandidate ⟨"load", 1⟩ authored, .promoteToApproved passing ⟨"load", 1⟩]

end ActiveCap

/-- With one slot two promotions leave two live versions. -/
theorem two_promotions_overfill :
    ∃ lib', (system ActiveCap.oneSlot).run .empty ActiveCap.twoPromotions = some lib' ∧
      ¬ WithinCap ActiveCap.oneSlot lib' := by
  have hrun : ((system ActiveCap.oneSlot).run .empty ActiveCap.twoPromotions).map
      (fun lib => lib.activeCount "etl") = some 2 := by decide +kernel
  obtain ⟨lib', hlib', hcount⟩ := Option.map_eq_some_iff.mp hrun
  refine ⟨lib', hlib', fun hcap => ?_⟩
  have hle := hcap "etl"
  rw [hcount] at hle
  exact absurd hle (by decide)

/-- A version whose status on file is `approved`. -/
def Library.Approved (lib : Library) (ref : SkillRef) : Prop :=
  ∃ entry status, lib.get? ref = some entry ∧ entry.status = some status ∧
    status.lifecycle = .approved

theorem approved_iff_standing {lib : Library} {ref : SkillRef} :
    lib.Approved ref ↔ ∃ entry active, lib.get? ref = some entry ∧
      entry.standing = some (.approved, active) := by
  constructor
  · intro ⟨entry, status, hentry, hstatus, hlifecycle⟩
    exact ⟨entry, status.active, hentry, standing_eq_some.mpr ⟨status, hstatus, hlifecycle, rfl⟩⟩
  · intro ⟨entry, active, hentry, hstanding⟩
    obtain ⟨status, hstatus, hlifecycle, -⟩ := standing_eq_some.mp hstanding
    exact ⟨entry, status, hentry, hstatus, hlifecycle⟩

/-- A move to no approved lifecycle approves no version. -/
theorem Moves.approved_before {dest : SkillRef → Entry → Option Lifecycle} {lib lib' : Library}
    (h : Moves dest lib lib') (hdest : ∀ ref entry, dest ref entry ≠ some .approved)
    {ref : SkillRef} (happroved : lib'.Approved ref) : lib.Approved ref := by
  obtain ⟨entry', active, hentry', hstanding'⟩ := approved_iff_standing.mp happroved
  obtain ⟨entry, hentry, -, hstanding⟩ := h.before hentry'
  apply approved_iff_standing.mpr
  rw [hstanding'] at hstanding
  cases hto : dest ref entry with
  | none =>
    rw [hto, Option.map_none, Option.none_or] at hstanding
    exact ⟨entry, active, hentry, hstanding.symm⟩
  | some lifecycle =>
    rw [hto, Option.map_some, Option.some_or] at hstanding
    have hlifecycle : lifecycle = .approved := (Prod.mk.inj (Option.some.inj hstanding)).1.symm
    exact absurd (hlifecycle ▸ hto) (hdest ref entry)

/-- The versions that the later library holds as the earlier one does. -/
def VersionsKept (lib lib' : Library) : Prop :=
  ∀ ref entry, lib.get? ref = some entry →
    ∃ entry', lib'.get? ref = some entry' ∧ entry'.version = entry.version

theorem versionsKept_refl (lib : Library) : VersionsKept lib lib :=
  fun _ entry hentry => ⟨entry, hentry, rfl⟩

theorem VersionsKept.trans {lib mid lib' : Library} (h : VersionsKept lib mid)
    (h' : VersionsKept mid lib') : VersionsKept lib lib' := by
  intro ref entry hentry
  obtain ⟨entry', hentry', hversion⟩ := h ref entry hentry
  obtain ⟨last, hlast, hversion'⟩ := h' ref entry' hentry'
  exact ⟨last, hlast, hversion'.trans hversion⟩

theorem Moves.versionsKept {dest : SkillRef → Entry → Option Lifecycle} {lib lib' : Library}
    (h : Moves dest lib lib') : VersionsKept lib lib' := by
  intro ref entry hentry
  obtain ⟨entry', hentry', hversion, -⟩ := h.after hentry
  exact ⟨entry', hentry', hversion⟩

/-- What an operation does to the approved versions: it keeps the content of every version, and only
a promotion approves one that was not. -/
structure Gated (lib : Library) (op : LibraryOp) (lib' : Library) : Prop where
  versions : VersionsKept lib lib'
  approved : ∀ ref, lib'.Approved ref → lib.Approved ref ∨
    ∃ checks entry status, op = .promoteToApproved checks ref ∧ lib.get? ref = some entry ∧
      entry.status = some status ∧ checks.Pass entry ∧
      status.lifecycle.abortsPromotion = false

theorem gated_refl (lib : Library) (op : LibraryOp) : Gated lib op lib :=
  ⟨versionsKept_refl lib, fun _ h => Or.inl h⟩

theorem Moves.gated {dest : SkillRef → Entry → Option Lifecycle} {lib lib' : Library}
    (h : Moves dest lib lib') (hdest : ∀ ref entry, dest ref entry ≠ some .approved)
    (op : LibraryOp) : Gated lib op lib' :=
  ⟨h.versionsKept, fun _ happroved => Or.inl (h.approved_before hdest happroved)⟩

theorem Gated.trans_moves {dest : SkillRef → Entry → Option Lifecycle} {lib mid lib' : Library}
    {op : LibraryOp} (h : Gated lib op mid) (hmoves : Moves dest mid lib')
    (hdest : ∀ ref entry, dest ref entry ≠ some .approved) : Gated lib op lib' :=
  ⟨h.versions.trans hmoves.versionsKept,
    fun ref happroved => h.approved ref (hmoves.approved_before hdest happroved)⟩

/-- A destination that is named under a condition. -/
theorem ite_ne_approved {p : Prop} [Decidable p] {lifecycle : Lifecycle}
    (h : lifecycle ≠ .approved) : (if p then some lifecycle else none) ≠ some .approved := by
  intro heq
  split at heq
  · exact h (Option.some.inj heq)
  · cases heq

theorem gated_writeCandidate {ref : SkillRef} {version : SkillVersion} {lib lib' : Library}
    (op : LibraryOp) (h : lib.writeCandidate ref version = .ok lib') : Gated lib op lib' := by
  obtain ⟨-, hget⟩ := writeCandidate_eq_ok h
  constructor
  · intro r entry hentry
    by_cases hr : r = ref
    · refine ⟨_, (hget r).trans (if_pos hr), ?_⟩
      show ((lib.get? ref).map Entry.version).getD version = entry.version
      rw [← hr, hentry, Option.map_some, Option.getD_some]
    · exact ⟨entry, (hget r).trans ((if_neg hr).trans hentry), rfl⟩
  · intro r ⟨entry', status', hentry', hstatus', hlifecycle⟩
    rw [hget r] at hentry'
    split at hentry'
    · -- What was written is a candidate.
      cases hentry'
      cases hstatus'
      cases hlifecycle
    · exact Or.inl ⟨entry', status', hentry', hstatus', hlifecycle⟩

theorem gated_promote {checks : Checks} {ref : SkillRef} {lib lib' : Library}
    (h : promoteToApproved checks ref lib = .ok lib') :
    Gated lib (.promoteToApproved checks ref) lib' := by
  obtain ⟨entry, status, hentry, hstatus, hpass, haborts, rfl⟩ := promoteToApproved_eq_ok.mp h
  constructor
  · intro r other hother
    by_cases hr : r = ref
    · rw [hr] at hother ⊢
      cases hentry.symm.trans hother
      exact ⟨_, get?_putStatus_self hentry _, rfl⟩
    · exact ⟨other, (get?_putStatus_other lib hr _).trans hother, rfl⟩
  · intro r ⟨other, status', hother, hstatus', hlifecycle⟩
    by_cases hr : r = ref
    · right
      rw [hr]
      exact ⟨checks, entry, status, rfl, hentry, hstatus, hpass, haborts⟩
    · left
      rw [get?_putStatus_other lib hr] at hother
      exact ⟨other, status', hother, hstatus', hlifecycle⟩

theorem gated_recompute {config : AutonomyConfig} {evidence : Option Evidence}
    {lib lib' : Library} (op : LibraryOp)
    (h : recomputeActiveSet config evidence lib = .ok lib') : Gated lib op lib' := by
  obtain ⟨last, hlast, hrefreshed, hnone⟩ := recomputeActiveSet_spec config evidence lib
  cases h.symm.trans hlast
  constructor
  · intro ref entry hentry
    obtain ⟨entry', hentry', hversion, -⟩ := hrefreshed ref entry hentry
    exact ⟨entry', hentry', hversion⟩
  · intro ref happroved
    obtain ⟨entry', active, hentry', hstanding'⟩ := approved_iff_standing.mp happroved
    left
    apply approved_iff_standing.mpr
    cases hentry : lib.get? ref with
    | none =>
      rw [hnone ref hentry] at hentry'
      cases hentry'
    | some entry =>
      obtain ⟨other, hother, -, hstanding⟩ := hrefreshed ref entry hentry
      cases hentry'.symm.trans hother
      -- A refresh changes the active bit alone.
      rw [hstanding', refreshedStanding] at hstanding
      obtain ⟨⟨lifecycle, before⟩, hbefore, heq⟩ := Option.map_eq_some_iff.mp hstanding.symm
      have hlifecycle : lifecycle = .approved := (Prod.mk.inj heq).1
      exact ⟨entry, before, rfl, hlifecycle ▸ hbefore⟩

/-- Every operation is gated. -/
theorem gated_after (config : AutonomyConfig) (op : LibraryOp) (lib : Library) :
    Gated lib op (op.after config lib) := by
  apply after_of_outcomes (gated_refl lib op)
  intro lib' h
  cases op with
  | writeCandidate ref version => exact gated_writeCandidate _ h
  | promoteToApproved checks ref => exact gated_promote h
  | recomputeActiveSet evidence => exact gated_recompute _ h
  | drainRevokes maxWrites =>
    cases h
    exact (drainRevokes_moves maxWrites lib).1.gated (fun _ _ => ite_ne_approved (by decide)) _
  | recertifyFieldFailures streaks =>
    obtain ⟨last, hlast, hmoves⟩ := recertifyFieldFailures_moves config streaks lib
    cases h.symm.trans hlast
    exact hmoves.gated (fun _ _ => ite_ne_approved (by decide)) _
  | recertifyStale toolUpgraded =>
    obtain ⟨last, hlast, hmoves⟩ := recertifyStale_moves toolUpgraded lib
    cases h.symm.trans hlast
    exact hmoves.gated (fun _ _ => ite_ne_approved (by decide)) _
  | restoreBenched now ref =>
    exact (restoreBenched_moves h).2.gated (fun _ _ => ite_ne_approved (by decide)) _
  | enterShadow ref =>
    exact (enterShadow_moves h).2.gated (fun _ _ => ite_ne_approved (by decide)) _
  | maybeAdvanceShadowToCandidate evidence applicable ref =>
    exact (maybeAdvance_moves h).2.gated (fun _ _ => ite_ne_approved (by decide)) _
  | quarantineChildBlocksParents child =>
    obtain ⟨status, hstatus, -⟩ := bind_eq_ok.mp h
    obtain ⟨last, hlast, hmoves⟩ := quarantineChild_moves hstatus
    cases h.symm.trans hlast
    apply hmoves.gated _ _
    intro ref entry
    split
    · rw [Option.some_or]
      exact fun heq => by cases heq
    · rw [Option.none_or]
      exact ite_ne_approved (by decide)
  | quarantineOnFailures ref failures =>
    obtain ⟨status, hstatus, -⟩ := bind_eq_ok.mp h
    obtain ⟨last, hlast, hmoves⟩ := quarantineOnFailures_moves config failures hstatus
    cases h.symm.trans hlast
    exact hmoves.gated (fun _ _ => ite_ne_approved (by decide)) _
  | maybeBenchOnContribution evidence ref =>
    obtain ⟨⟨status, hstatus⟩, hretires⟩ := maybeBench_eq_ok h
    obtain ⟨mid, last, hlast, hbench, hparents⟩ := maybeBench_moves hstatus hretires
    cases h.symm.trans hlast
    have hmid := hbench.gated (fun _ _ => ite_ne_approved (by decide))
      (.maybeBenchOnContribution evidence ref)
    exact hmid.trans_moves hparents fun _ _ => ite_ne_approved (by decide)

/-- The versions stay as they were written, over every sequence of operations. -/
theorem versionsKept_run {config : AutonomyConfig} {lib lib' : Library} {ops : List LibraryOp}
    (h : (system config).run lib ops = some lib') : VersionsKept lib lib' :=
  Transition.System.run_invariant (I := VersionsKept lib)
    (fun mid op _ hmid hstep =>
      hmid.trans (step_eq_some.mp hstep ▸ (gated_after config op mid).versions))
    (versionsKept_refl lib) h

/-- No version is approved but by a promotion: over every sequence of operations from the empty
library, a version that is approved was promoted at some point with all its checks passed, on the
content that it still has, out of a lifecycle that does not abort a promotion, and it has been
approved without a break ever since. -/
theorem approved_was_promoted (config : AutonomyConfig) (ops : List LibraryOp) (lib : Library)
    (ref : SkillRef) (entry : Entry)
    (h : (system config).run .empty ops = some lib) (hentry : lib.get? ref = some entry)
    (happroved : entry.status.map SkillStatus.lifecycle = some .approved) :
    ∃ pre checks post mid before status,
      ops = pre ++ .promoteToApproved checks ref :: post ∧
      (system config).run .empty pre = some mid ∧ mid.get? ref = some before ∧
      before.version = entry.version ∧ before.status = some status ∧ checks.Pass before ∧
      status.lifecycle.abortsPromotion = false ∧
      (system config).Along (fun lib _ _ => lib.Approved ref)
        ((LibraryOp.promoteToApproved checks ref).after config mid) post := by
  obtain ⟨status, hstatus, hlifecycle⟩ := Option.map_eq_some_iff.mp happroved
  have hempty : ¬ Library.empty.Approved ref := by
    intro ⟨other, _, hother, _, _⟩
    cases hother
  obtain ⟨pre, op, post, mid, promoted, hops, hpre, hstep,
      ⟨checks, before, status', rfl, hbefore, hstatus', hpass, haborts⟩, hpost, hrest⟩ :=
    Transition.System.last_entry (T := system config) (R := fun lib => lib.Approved ref)
      (V := fun lib op _ => ∃ checks entry status, op = .promoteToApproved checks ref ∧
        lib.get? ref = some entry ∧ entry.status = some status ∧ checks.Pass entry ∧
        status.lifecycle.abortsPromotion = false)
      (Q := fun lib _ _ => lib.Approved ref)
      (fun lib op lib' hstep hafter => by
        have hgated := gated_after config op lib
        rw [step_eq_some.mp hstep] at hgated
        rcases hgated.approved ref hafter with hold | hnew
        · exact Or.inr ⟨hold, hold⟩
        · exact Or.inl hnew)
      hempty h ⟨entry, status, hentry, hstatus, hlifecycle⟩
  -- The content at the promotion is the content at the end.
  have hkept : VersionsKept mid lib :=
    versionsKept_run (Transition.System.run_cons.mpr ⟨promoted, hstep, hpost⟩)
  obtain ⟨last, hlast, hversion⟩ := hkept ref before hbefore
  cases hentry.symm.trans hlast
  rw [← step_eq_some.mp hstep] at hrest
  exact ⟨pre, checks, post, mid, before, status', hops, hpre, hbefore, hversion.symm, hstatus',
    hpass, haborts, hrest⟩

theorem approved_was_promoted_twice :
    ∃ lib, (system {}).run .empty ActiveCap.twoPromotions = some lib ∧
      ∃ pre checks post, ActiveCap.twoPromotions =
        pre ++ .promoteToApproved checks ⟨"parse", 1⟩ :: post := by
  have hrun : ((system {}).run .empty ActiveCap.twoPromotions).bind (fun lib =>
      (lib.get? ⟨"parse", 1⟩).bind fun entry => entry.status.map SkillStatus.lifecycle) =
        some .approved := by decide +kernel
  obtain ⟨lib, hlib, hfound⟩ := Option.bind_eq_some_iff.mp hrun
  obtain ⟨entry, hentry, happroved⟩ := Option.bind_eq_some_iff.mp hfound
  obtain ⟨pre, checks, post, mid, before, status, hops, -⟩ :=
    approved_was_promoted {} ActiveCap.twoPromotions lib ⟨"parse", 1⟩ entry hlib hentry happroved
  exact ⟨lib, hlib, pre, checks, post, hops⟩

end Recertia.Skill
