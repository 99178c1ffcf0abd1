import Recertia.Skill.Refresh

/-! Removed versions: which operations give a `deprecated` or `quarantined` version another lifecycle. -/
namespace Recertia.Skill

open Fallible

/-- The terminal lifecycles. -/
def Lifecycle.removed : Lifecycle → Bool
  | .deprecated => true
  | .quarantined => true
  | _ => false

/-- A stored version that is removed. -/
def Library.Removed (lib : Library) (ref : SkillRef) (entry : Entry) : Prop :=
  lib.get? ref = some entry ∧ ∃ status, entry.status = some status ∧ status.lifecycle.removed = true

/-- The lifecycle that is on file for a version. -/
def Library.lifecycle? (lib : Library) (ref : SkillRef) : Option Lifecycle :=
  ((lib.get? ref).bind Entry.status).map SkillStatus.lifecycle

/-- Every removed version keeps its lifecycle. -/
def Kept (lib lib' : Library) : Prop :=
  ∀ ref entry, lib.Removed ref entry → lib'.lifecycle? ref = lib.lifecycle? ref

/-- The operations that write over a removed version: they do not look at its lifecycle, or the list
that they look it up in does not name it. -/
def Relabels (config : AutonomyConfig) (lib : Library) : LibraryOp → Prop
  | .quarantineChildBlocksParents child =>
    (lib.lifecycle? child).isSome ∧ (lib.lifecycle? child = some .deprecated ∨
      ∃ ref entry, lib.Removed ref entry ∧ child ∈ entry.version.uses)
  | .quarantineOnFailures ref failures =>
    lib.lifecycle? ref = some .deprecated ∧ config.quarantineConsecutiveFailures ≤ failures
  | .maybeBenchOnContribution evidence ref =>
    retires config evidence ref = true ∧ ∃ entry, lib.Removed ref entry
  | .recertifyStale toolUpgraded =>
    ∃ ref entry, lib.Removed ref entry ∧ isStale toolUpgraded entry.loaded = true
  | .promoteToApproved checks ref =>
    lib.lifecycle? ref = some .deprecated ∧ ∃ entry, lib.get? ref = some entry ∧ checks.Pass entry
  | _ => False

theorem protected_of_removed {lifecycle : Lifecycle} (h : lifecycle.removed = true) :
    lifecycle.protectedFromDemote = true := by
  cases lifecycle with
  | deprecated => rfl
  | quarantined => rfl
  | _ => cases h

theorem not_removed {lifecycle : Lifecycle}
    (h : lifecycle ≠ .quarantined ∧ lifecycle ≠ .deprecated) : lifecycle.removed = false := by
  cases lifecycle with
  | quarantined => exact absurd rfl h.1
  | deprecated => exact absurd rfl h.2
  | _ => rfl

theorem lifecycle?_of_get? {lib : Library} {ref : SkillRef} {entry : Entry}
    (h : lib.get? ref = some entry) :
    lib.lifecycle? ref = entry.standing.map Prod.fst := by
  rw [Library.lifecycle?, h, Option.bind_some, Entry.standing, Option.map_map]
  rfl

theorem lifecycle?_eq_some {lib : Library} {ref : SkillRef} {lifecycle : Lifecycle} :
    lib.lifecycle? ref = some lifecycle ↔ ∃ entry status, lib.get? ref = some entry ∧
      entry.status = some status ∧ status.lifecycle = lifecycle := by
  simp only [Library.lifecycle?, Option.map_eq_some_iff, Option.bind_eq_some_iff]
  constructor
  · rintro ⟨status, ⟨entry, hentry, hstatus⟩, hlifecycle⟩
    exact ⟨entry, status, hentry, hstatus, hlifecycle⟩
  · rintro ⟨entry, status, hentry, hstatus, hlifecycle⟩
    exact ⟨status, ⟨entry, hentry, hstatus⟩, hlifecycle⟩

theorem kept_refl (lib : Library) : Kept lib lib := fun _ _ _ => rfl

theorem Kept.trans {lib mid lib' : Library} (h : Kept lib mid) (h' : Kept mid lib') :
    Kept lib lib' := by
  intro ref entry hremoved
  have hmid := h ref entry hremoved
  obtain ⟨hentry, status, hstatus, hlifecycle⟩ := hremoved
  have hold : mid.lifecycle? ref = some status.lifecycle := by
    rw [hmid]
    exact lifecycle?_eq_some.mpr ⟨entry, status, hentry, hstatus, rfl⟩
  obtain ⟨entry', status', hentry', hstatus', heq⟩ := lifecycle?_eq_some.mp hold
  rw [h' ref entry' ⟨hentry', status', hstatus', heq ▸ hlifecycle⟩, hmid]

/-- A move keeps the removed versions when it takes none of them to another lifecycle. -/
theorem Moves.kept_iff {dest : SkillRef → Entry → Option Lifecycle} {lib lib' : Library}
    (h : Moves dest lib lib') :
    Kept lib lib' ↔ ∀ ref entry, lib.Removed ref entry → ∀ lifecycle,
      dest ref entry = some lifecycle → lib.lifecycle? ref = some lifecycle := by
  have hpoint (ref : SkillRef) (entry : Entry) (hremoved : lib.Removed ref entry) :
      lib'.lifecycle? ref = (dest ref entry).or (lib.lifecycle? ref) := by
    obtain ⟨entry', hentry', -, hstanding⟩ := h.after hremoved.1
    rw [lifecycle?_of_get? hentry', hstanding, lifecycle?_of_get? hremoved.1]
    cases dest ref entry <;> rfl
  constructor
  · intro hkept ref entry hremoved lifecycle hdest
    have hsame := hkept ref entry hremoved
    rw [hpoint ref entry hremoved, hdest, Option.some_or] at hsame
    exact hsame.symm
  · intro hsame ref entry hremoved
    rw [hpoint ref entry hremoved]
    cases hdest : dest ref entry with
    | none => rw [Option.none_or]
    | some lifecycle => rw [Option.some_or, hsame ref entry hremoved lifecycle hdest]

theorem lifecycle?_of_getStatus {lib : Library} {ref : SkillRef} {status : SkillStatus}
    (h : lib.getStatus ref = .ok status) : lib.lifecycle? ref = some status.lifecycle := by
  obtain ⟨entry, hentry, hstatus⟩ := getStatus_eq_ok.mp h
  exact lifecycle?_eq_some.mpr ⟨entry, status, hentry, hstatus, rfl⟩

theorem lifecycle?_of_getStatus_error {lib : Library} {ref : SkillRef} {e : LibraryError}
    (h : lib.getStatus ref = .error e) : lib.lifecycle? ref = none := by
  apply Option.eq_none_iff_forall_ne_some.mpr
  intro lifecycle hsome
  obtain ⟨entry, status, hentry, hstatus, -⟩ := lifecycle?_eq_some.mp hsome
  rw [getStatus_eq_ok.mpr ⟨entry, hentry, hstatus⟩] at h
  cases h

theorem removed_lifecycle {lib : Library} {ref : SkillRef} {entry : Entry}
    (h : lib.Removed ref entry) :
    lib.lifecycle? ref = some .deprecated ∨ lib.lifecycle? ref = some .quarantined := by
  obtain ⟨hentry, status, hstatus, hremoved⟩ := h
  have hlifecycle : lib.lifecycle? ref = some status.lifecycle :=
    lifecycle?_eq_some.mpr ⟨entry, status, hentry, hstatus, rfl⟩
  rw [hlifecycle]
  cases hcase : status.lifecycle <;> rw [hcase] at hremoved <;> simp [Lifecycle.removed] at hremoved ⊢

theorem removed_of_deprecated {lib : Library} {ref : SkillRef}
    (h : lib.lifecycle? ref = some .deprecated) : ∃ entry, lib.Removed ref entry := by
  obtain ⟨entry, status, hentry, hstatus, hlifecycle⟩ := lifecycle?_eq_some.mp h
  exact ⟨entry, hentry, status, hstatus, by rw [hlifecycle]; rfl⟩

theorem kept_quarantineChild (config : AutonomyConfig) (child : SkillRef) (lib : Library) :
    Kept lib ((LibraryOp.quarantineChildBlocksParents child).after config lib) ↔
      ¬ Relabels config lib (.quarantineChildBlocksParents child) := by
  cases hstatus : lib.getStatus child with
  | error e =>
    have herror : (LibraryOp.quarantineChildBlocksParents child).apply config lib = .error e :=
      bind_eq_error.mpr (Or.inl hstatus)
    rw [after_of_error _ herror]
    simp only [kept_refl, Relabels, lifecycle?_of_getStatus_error hstatus, Option.isSome_none,
      Bool.false_eq_true, false_and, not_false_eq_true]
  | ok status =>
    obtain ⟨lib', hlib', hmoves⟩ := quarantineChild_moves hstatus
    rw [after_of_ok (.quarantineChildBlocksParents child) hlib', hmoves.kept_iff]
    have hchild := lifecycle?_of_getStatus hstatus
    constructor
    · rintro hsame ⟨-, hdeprecated | ⟨ref, entry, hremoved, huses⟩⟩
      · obtain ⟨entry, hremoved⟩ := removed_of_deprecated hdeprecated
        -- The child itself goes to one of two lifecycles, neither of which is its own.
        by_cases hself : child ∈ entry.version.uses
        · have heq := hsame child entry hremoved .needsRecert (by rw [if_pos hself]; rfl)
          rw [hdeprecated] at heq
          cases heq
        · have heq := hsame child entry hremoved .quarantined (by
            rw [if_neg hself, if_pos rfl]; rfl)
          rw [hdeprecated] at heq
          cases heq
      · have heq := hsame ref entry hremoved .needsRecert (by rw [if_pos huses]; rfl)
        rcases removed_lifecycle hremoved with hother | hother <;> rw [hother] at heq <;> cases heq
    · intro hnot ref entry hremoved lifecycle hdest
      by_cases huses : child ∈ entry.version.uses
      · exact absurd ⟨by rw [hchild]; rfl, Or.inr ⟨ref, entry, hremoved, huses⟩⟩ hnot
      · rw [if_neg huses, Option.none_or] at hdest
        split at hdest
        · rename_i href
          cases hdest
          rcases removed_lifecycle hremoved with hdeprecated | hquarantined
          · exact absurd ⟨by rw [hchild]; rfl, Or.inl (href ▸ hdeprecated)⟩ hnot
          · exact hquarantined
        · cases hdest

theorem kept_quarantineOnFailures (config : AutonomyConfig) (ref : SkillRef) (failures : ℕ)
    (lib : Library) :
    Kept lib ((LibraryOp.quarantineOnFailures ref failures).after config lib) ↔
      ¬ Relabels config lib (.quarantineOnFailures ref failures) := by
  cases hstatus : lib.getStatus ref with
  | error e =>
    have herror : (LibraryOp.quarantineOnFailures ref failures).apply config lib = .error e :=
      bind_eq_error.mpr (Or.inl hstatus)
    have hnone := lifecycle?_of_getStatus_error hstatus
    rw [after_of_error _ herror]
    simp only [kept_refl, true_iff]
    rintro ⟨hdeprecated, -⟩
    rw [hnone] at hdeprecated
    cases hdeprecated
  | ok status =>
    obtain ⟨lib', hlib', hmoves⟩ := quarantineOnFailures_moves config failures hstatus
    rw [after_of_ok (.quarantineOnFailures ref failures) hlib', hmoves.kept_iff]
    constructor
    · rintro hsame ⟨hdeprecated, hmany⟩
      obtain ⟨entry, hremoved⟩ := removed_of_deprecated hdeprecated
      have heq := hsame ref entry hremoved .quarantined (if_pos ⟨rfl, hmany⟩)
      rw [hdeprecated] at heq
      cases heq
    · intro hnot r entry hremoved lifecycle hdest
      split at hdest
      · rename_i hr
        cases hdest
        rcases removed_lifecycle hremoved with hdeprecated | hquarantined
        · exact absurd ⟨hr.1 ▸ hdeprecated, hr.2⟩ hnot
        · exact hquarantined
      · cases hdest

/-- A field failure is of a version in use. -/
theorem kept_recertifyFieldFailures (config : AutonomyConfig) (streaks : SkillRef → ℕ)
    (lib : Library) :
    Kept lib ((LibraryOp.recertifyFieldFailures streaks).after config lib) := by
  obtain ⟨lib', hlib', hmoves⟩ := recertifyFieldFailures_moves config streaks lib
  rw [after_of_ok (.recertifyFieldFailures streaks) hlib', hmoves.kept_iff]
  intro ref entry hremoved lifecycle hdest
  obtain ⟨-, status, hstatus, hlifecycle⟩ := hremoved
  split at hdest
  · rename_i hp
    rw [loaded_of_status hstatus] at hp
    rcases hp.1 with heq | heq | heq <;> rw [heq] at hlifecycle <;> cases hlifecycle
  · cases hdest

/-- Parents are marked when they are in use. -/
theorem kept_markParents {child : SkillRef} {lib lib' : Library}
    (h : Moves (fun _ entry => if child ∈ entry.version.uses ∧
      (entry.loaded.lifecycle = .approved ∨ entry.loaded.lifecycle = .shadow) then
        some .needsRecert else none) lib lib') : Kept lib lib' := by
  rw [h.kept_iff]
  intro ref entry hremoved lifecycle hdest
  obtain ⟨-, status, hstatus, hlifecycle⟩ := hremoved
  split at hdest
  · rename_i hp
    rw [loaded_of_status hstatus] at hp
    rcases hp.2 with heq | heq <;> rw [heq] at hlifecycle <;> cases hlifecycle
  · cases hdest

theorem kept_maybeBench (config : AutonomyConfig) (evidence : Evidence) (ref : SkillRef)
    (lib : Library) :
    Kept lib ((LibraryOp.maybeBenchOnContribution evidence ref).after config lib) ↔
      ¬ Relabels config lib (.maybeBenchOnContribution evidence ref) := by
  constructor
  · rintro hkept ⟨hretires, entry, hremoved⟩
    obtain ⟨hentry, status, hstatus, -⟩ := id hremoved
    obtain ⟨mid, lib', hlib', hbench, hparents⟩ :=
      maybeBench_moves (getStatus_eq_ok.mpr ⟨entry, hentry, hstatus⟩) hretires
    rw [after_of_ok (.maybeBenchOnContribution evidence ref) hlib'] at hkept
    -- Behind the benching it is benched or, when it pins itself, still benched.
    obtain ⟨entry', hentry', -, hstanding⟩ := hbench.after hentry
    rw [if_pos rfl, Option.map_some, Option.some_or] at hstanding
    obtain ⟨status', hstatus', hbenched, -⟩ := standing_eq_some.mp hstanding
    obtain ⟨last, hlast, -, hstanding'⟩ := hparents.after hentry'
    have hnot : ¬ (ref ∈ entry'.version.uses ∧
        (entry'.loaded.lifecycle = .approved ∨ entry'.loaded.lifecycle = .shadow)) := by
      rintro ⟨-, heq | heq⟩ <;> rw [loaded_of_status hstatus', hbenched] at heq <;> cases heq
    rw [if_neg hnot, Option.map_none, Option.none_or, hstanding] at hstanding'
    have hsame := hkept ref entry hremoved
    rw [lifecycle?_of_get? hlast, hstanding'] at hsame
    rcases removed_lifecycle hremoved with heq | heq <;> rw [heq] at hsame <;> cases hsame
  · intro hnot
    apply after_of_outcomes (kept_refl lib)
    intro lib' hlib'
    obtain ⟨⟨status, hstatus⟩, hretires⟩ := maybeBench_eq_ok hlib'
    obtain ⟨mid, last, hlast, hbench, hparents⟩ := maybeBench_moves hstatus hretires
    cases hlib'.symm.trans hlast
    apply Kept.trans _ (kept_markParents hparents)
    rw [hbench.kept_iff]
    intro r entry hremoved lifecycle hdest
    split at hdest
    · rename_i hr
      exact absurd ⟨hretires, entry, hr ▸ hremoved⟩ hnot
    · cases hdest

/-- A move of one version that is not removed. -/
theorem kept_of_single {lib lib' : Library} {ref : SkillRef} {lifecycle : Lifecycle}
    {status : SkillStatus} (hstatus : lib.getStatus ref = .ok status)
    (hnot : status.lifecycle.removed = false)
    (h : Moves (fun r _ => if r = ref then some lifecycle else none) lib lib') : Kept lib lib' := by
  rw [h.kept_iff]
  intro r entry hremoved next hdest
  split at hdest
  · rename_i hr
    have hlifecycle := lifecycle?_of_getStatus hstatus
    rw [← hr] at hlifecycle
    rcases removed_lifecycle hremoved with heq | heq <;> rw [heq] at hlifecycle <;>
      rw [← Option.some.inj hlifecycle] at hnot <;> cases hnot
  · cases hdest

theorem kept_recertifyStale (config : AutonomyConfig) (toolUpgraded : Option String)
    (lib : Library) :
    Kept lib ((LibraryOp.recertifyStale toolUpgraded).after config lib) ↔
      ¬ Relabels config lib (.recertifyStale toolUpgraded) := by
  obtain ⟨lib', hlib', hmoves⟩ := recertifyStale_moves toolUpgraded lib
  rw [after_of_ok (.recertifyStale toolUpgraded) hlib', hmoves.kept_iff]
  constructor
  · rintro hsame ⟨ref, entry, hremoved, hstale⟩
    have heq := hsame ref entry hremoved .needsRecert (if_pos hstale)
    rcases removed_lifecycle hremoved with hother | hother <;> rw [hother] at heq <;> cases heq
  · intro hnot ref entry hremoved lifecycle hdest
    split at hdest
    · rename_i hstale
      exact absurd ⟨ref, entry, hremoved, hstale⟩ hnot
    · cases hdest

/-- A drain marks no removed version. -/
theorem kept_drainRevokes (maxWrites : ℕ) (lib : Library) :
    Kept lib (drainRevokes maxWrites lib).1 := by
  obtain ⟨hmoves, hmarkable⟩ := drainRevokes_moves maxWrites lib
  rw [hmoves.kept_iff]
  intro ref entry hremoved lifecycle hdest
  split at hdest
  · rename_i hmem
    obtain ⟨other, status, hother, hstatus, hrevoked⟩ := markable_iff.mp (hmarkable ref hmem)
    have hlifecycle := lifecycle?_eq_some.mpr ⟨other, status, hother, hstatus, rfl⟩
    rcases removed_lifecycle hremoved with heq | heq <;> rw [heq] at hlifecycle <;>
      rw [← Option.some.inj hlifecycle] at hrevoked <;> cases hrevoked
  · cases hdest

theorem kept_recompute (config : AutonomyConfig) (evidence : Option Evidence) (lib : Library) :
    Kept lib ((LibraryOp.recomputeActiveSet evidence).after config lib) := by
  obtain ⟨lib', hlib', hrefreshed, -⟩ := recomputeActiveSet_spec config evidence lib
  rw [after_of_ok (.recomputeActiveSet evidence) hlib']
  intro ref entry hremoved
  obtain ⟨entry', hentry', -, hstanding⟩ := hrefreshed ref entry hremoved.1
  rw [lifecycle?_of_get? hentry', lifecycle?_of_get? hremoved.1, hstanding, refreshedStanding,
    Option.map_map]
  rfl

theorem kept_writeCandidate {ref : SkillRef} {version : SkillVersion} {lib lib' : Library}
    (h : lib.writeCandidate ref version = .ok lib') : Kept lib lib' := by
  obtain ⟨hprotected, hget⟩ := writeCandidate_eq_ok h
  intro r entry hremoved
  obtain ⟨hentry, status, hstatus, hlifecycle⟩ := hremoved
  have hne : r ≠ ref := by
    intro hr
    have hfree := hprotected entry status (hr ▸ hentry) hstatus
    rw [protected_of_removed hlifecycle] at hfree
    cases hfree
  rw [Library.lifecycle?, hget r, if_neg hne, Library.lifecycle?]

theorem kept_promoteToApproved (config : AutonomyConfig) (checks : Checks) (ref : SkillRef)
    (lib : Library) :
    Kept lib ((LibraryOp.promoteToApproved checks ref).after config lib) ↔
      ¬ Relabels config lib (.promoteToApproved checks ref) := by
  constructor
  · rintro hkept ⟨hdeprecated, entry, hentry, hpass⟩
    obtain ⟨other, status, hother, hstatus, hlifecycle⟩ := lifecycle?_eq_some.mp hdeprecated
    cases hentry.symm.trans hother
    have hok : (LibraryOp.promoteToApproved checks ref).apply config lib =
        .ok (lib.putStatus ref (approvedStatus checks entry)) :=
      promoteToApproved_eq_ok.mpr ⟨entry, status, hentry, hstatus, hpass, by rw [hlifecycle]; rfl, rfl⟩
    rw [after_of_ok _ hok] at hkept
    have hsame := hkept ref entry ⟨hentry, status, hstatus, by rw [hlifecycle]; rfl⟩
    rw [Library.lifecycle?, get?_putStatus, hentry, hdeprecated, Option.map_some, if_pos rfl,
      Option.bind_some, Option.map_some, approvedStatus_lifecycle] at hsame
    cases hsame
  · intro hnot
    apply after_of_outcomes (kept_refl lib)
    intro lib' hlib'
    obtain ⟨entry, status, hentry, hstatus, hpass, haborts, rfl⟩ := promoteToApproved_eq_ok.mp hlib'
    intro r other hremoved
    have hne : r ≠ ref := by
      rintro rfl
      rcases removed_lifecycle hremoved with hdeprecated | hquarantined
      · exact hnot ⟨hdeprecated, entry, hentry, hpass⟩
      · have hlifecycle := lifecycle?_eq_some.mpr ⟨entry, status, hentry, hstatus, rfl⟩
        rw [hquarantined] at hlifecycle
        rw [← Option.some.inj hlifecycle] at haborts
        cases haborts
    rw [Library.lifecycle?, get?_putStatus, hremoved.1, Option.map_some, if_neg hne,
      Library.lifecycle?, hremoved.1]

/-- One operation keeps the removed versions exactly when it is none of those that write over one. -/
theorem kept_after_iff (config : AutonomyConfig) (op : LibraryOp) (lib : Library) :
    Kept lib (op.after config lib) ↔ ¬ Relabels config lib op := by
  cases op with
  | quarantineChildBlocksParents child => exact kept_quarantineChild config child lib
  | quarantineOnFailures ref failures => exact kept_quarantineOnFailures config ref failures lib
  | maybeBenchOnContribution evidence ref => exact kept_maybeBench config evidence ref lib
  | recertifyStale toolUpgraded => exact kept_recertifyStale config toolUpgraded lib
  | promoteToApproved checks ref => exact kept_promoteToApproved config checks ref lib
  | recertifyFieldFailures streaks =>
    exact iff_of_true (kept_recertifyFieldFailures config streaks lib) id
  | recomputeActiveSet evidence => exact iff_of_true (kept_recompute config evidence lib) id
  | drainRevokes maxWrites => exact iff_of_true (kept_drainRevokes maxWrites lib) id
  | writeCandidate ref version =>
    apply iff_of_true _ id
    exact after_of_outcomes (kept_refl lib) fun _ h => kept_writeCandidate h
  | restoreBenched now ref =>
    apply iff_of_true _ id
    apply after_of_outcomes (kept_refl lib)
    intro lib' h
    obtain ⟨⟨status, hstatus, hbenched⟩, hmoves⟩ := restoreBenched_moves h
    exact kept_of_single hstatus (by rw [hbenched]; rfl) hmoves
  | maybeAdvanceShadowToCandidate evidence applicable ref =>
    apply iff_of_true _ id
    apply after_of_outcomes (kept_refl lib)
    intro lib' h
    obtain ⟨⟨status, hstatus, hshadow⟩, hmoves⟩ := maybeAdvance_moves h
    exact kept_of_single hstatus (by rw [hshadow]; rfl) hmoves
  | enterShadow ref =>
    apply iff_of_true _ id
    apply after_of_outcomes (kept_refl lib)
    intro lib' h
    obtain ⟨⟨status, hstatus, hnot⟩, hmoves⟩ := enterShadow_moves h
    exact kept_of_single hstatus (not_removed hnot) hmoves

/-- Along every sequence of operations the removed versions stay as they are exactly when none of
the operations writes over one. -/
theorem removed_kept_iff (config : AutonomyConfig) (lib : Library) (ops : List LibraryOp) :
    (system config).Along (fun lib _ lib' => Kept lib lib') lib ops ↔
      (system config).Along (fun lib op _ => ¬ Relabels config lib op) lib ops := by
  apply Transition.System.along_congr
  intro lib op lib' hstep
  rw [← step_eq_some.mp hstep, kept_after_iff]

namespace Removed

def parse : SkillRef := ⟨"parse", 1⟩

def build : SkillRef := ⟨"build", 1⟩

/-- An approved version that a quarantined one pins. -/
def pinned : Library where
  entries :=
    { rows :=
        [(parse, { version := { taskClass := "etl", usesUnique := List.nodup_nil }
                   status := some { lifecycle := .approved, active := true
                                    activeRetrievable := approved_retrievable true } }),
         (build, { version := { taskClass := "etl", uses := [parse]
                                usesUnique := List.nodup_singleton _ }
                   status := some { lifecycle := .quarantined
                                    activeRetrievable := retrievable_of_inactive .quarantined } })]
      nodup := List.nodup_cons.mpr ⟨by simp [build, parse], List.nodup_singleton _⟩ }
  index := Table.empty
  queue := []

end Removed

/-- The quarantine of a version takes a quarantined parent to `needs_recert`. -/
theorem quarantined_parent_relabelled :
    Removed.pinned.lifecycle? Removed.build = some .quarantined ∧
    ¬ (system {}).Along (fun lib _ lib' => Kept lib lib') Removed.pinned
      [.quarantineChildBlocksParents Removed.parse] := by
  have hbefore : Removed.pinned.lifecycle? Removed.build = some .quarantined := by decide +kernel
  have hafter : ((LibraryOp.quarantineChildBlocksParents Removed.parse).after {}
      Removed.pinned).lifecycle? Removed.build = some .needsRecert := by decide +kernel
  refine ⟨hbefore, fun h => ?_⟩
  obtain ⟨entry, status, hentry, hstatus, hquarantined⟩ := lifecycle?_eq_some.mp hbefore
  have hremoved : Removed.pinned.Removed Removed.build entry :=
    ⟨hentry, status, hstatus, by rw [hquarantined]; rfl⟩
  have hsame := (h _ rfl).1 Removed.build entry hremoved
  rw [hbefore] at hsame
  cases hsame.symm.trans hafter

end Recertia.Skill
