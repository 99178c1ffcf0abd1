import Recertia.Skill.Effects

/-! The refresh of the active set, class by class: lifecycles stay, and what is active behind it is in
the top of its class. -/
namespace Recertia.Skill

open Fallible

/-- What a version's directory says of it, but for its statistics. -/
def Library.row? (lib : Library) (ref : SkillRef) : Option (SkillVersion × Option SkillStatus) :=
  (lib.get? ref).map fun entry => (entry.version, entry.status)

theorem row?_eq_some {lib : Library} {ref : SkillRef} {version : SkillVersion}
    {status : Option SkillStatus} : lib.row? ref = some (version, status) ↔
      ∃ entry, lib.get? ref = some entry ∧ entry.version = version ∧ entry.status = status := by
  simp only [Library.row?, Option.map_eq_some_iff, Prod.mk.injEq]

theorem row?_putStats (lib : Library) (ref : SkillRef) (stats : SkillStats) (r : SkillRef) :
    (lib.putStats ref stats).row? r = lib.row? r := by
  rw [Library.row?, get?_putStats, Option.map_map, Library.row?]
  congr 1
  funext e
  simp only [Function.comp_apply]
  split <;> rfl

theorem row?_writeRefreshed (approved : List PoolRow) (lib : Library) (r : SkillRef) :
    (writeRefreshed approved lib).row? r = lib.row? r := by
  induction approved generalizing lib with
  | nil => rfl
  | cons row approved ih =>
    rw [writeRefreshed, List.foldl_cons]
    refine (ih _).trans ?_
    split
    · rfl
    · exact row?_putStats ..

theorem wantedStatus_lifecycle (topIds : List SkillRef) (ref : SkillRef) (entry : Entry)
    (stats : SkillStats) :
    (wantedStatus topIds ref entry stats).lifecycle = entry.loaded.lifecycle := by
  unfold wantedStatus
  split
  · rfl
  · unfold assignActiveOnApproval
    split <;> rfl

/-- Only an approved version in the top comes out active. -/
theorem wantedStatus_active {topIds : List SkillRef} {ref : SkillRef} {entry : Entry}
    {stats : SkillStats} (h : (wantedStatus topIds ref entry stats).active = true) :
    entry.loaded.lifecycle = .approved ∧ ref ∈ topIds := by
  unfold wantedStatus at h
  split at h
  · rename_i happroved
    rw [Bool.and_eq_true] at h
    exact ⟨happroved, List.contains_iff_mem.mp h.2⟩
  · rename_i hne
    unfold assignActiveOnApproval at h
    rw [dif_neg hne] at h
    cases h

/-- The ids at the top of a class. -/
def topIds (config : AutonomyConfig) (evidence : Option Evidence) (rows : List (SkillRef × Entry)) :
    List SkillRef :=
  selectActive (rankSkills ((rankedPool evidence.isSome (approvedRows evidence rows)).map fun row =>
    (row.ref, row.stats))) config.activeCapPerTaskClass

/-- The cut of the ranking. -/
theorem length_topIds_le (config : AutonomyConfig) (evidence : Option Evidence)
    (rows : List (SkillRef × Entry)) :
    (topIds config evidence rows).length ≤ config.activeCapPerTaskClass := by
  rw [topIds, selectActive, List.length_map]
  exact List.length_take_le _ _

/-- The status that a refresh wants for a row. -/
def refreshed (config : AutonomyConfig) (evidence : Option Evidence)
    (rows : List (SkillRef × Entry)) (ref : SkillRef) (entry : Entry) : SkillStatus :=
  wantedStatus (topIds config evidence rows) ref entry
    (currentStats (approvedRows evidence rows) (ref, entry))

/-- The standing of an entry when a class is refreshed over `rows`. -/
def refreshedStanding (config : AutonomyConfig) (evidence : Option Evidence)
    (rows : List (SkillRef × Entry)) (ref : SkillRef) (entry : Entry) :
    Option (Lifecycle × Bool) :=
  entry.standing.map fun standing => (standing.1, (refreshed config evidence rows ref entry).active)

/-- The write of a change of the active bit, and no write without one. -/
theorem standing_written {entry row : Entry} {wanted : SkillStatus}
    (hstatus : entry.status = row.status) (hlifecycle : wanted.lifecycle = row.loaded.lifecycle)
    (hactive : wanted.active = true → row.loaded.lifecycle = .approved) :
    (entry.written (if wanted.active = row.loaded.active then none else some (wanted, none))).standing
      = row.standing.map fun standing => (standing.1, wanted.active) := by
  cases hrow : row.status with
  | none =>
    -- A version without a status reads as a draft, which is never written.
    have hloaded : row.loaded = {} := by rw [Entry.loaded, hrow, Option.getD_none]
    have hfalse : wanted.active = row.loaded.active := by
      rw [hloaded] at hactive ⊢
      cases hwanted : wanted.active with
      | false => rfl
      | true => cases hactive hwanted
    rw [if_pos hfalse, Entry.written, Entry.standing, Entry.standing, hstatus, hrow]
    rfl
  | some status =>
    have hloaded : row.loaded = status := loaded_of_status hrow
    rw [hloaded] at hlifecycle ⊢
    split
    · rename_i hsame
      rw [hsame, Entry.written, Entry.standing, Entry.standing, hstatus, hrow]
      rfl
    · rw [Entry.written, Entry.standing, Entry.standing, hrow, Option.map_some, Option.map_some,
        Option.map_some, hlifecycle]

theorem refreshClass_spec (config : AutonomyConfig) (evidence : Option Evidence)
    {rows : List (SkillRef × Entry)} {lib : Library} (hnodup : (rows.map Prod.fst).Nodup)
    (hrows : ∀ row ∈ rows, lib.row? row.1 = some (row.2.version, row.2.status)) :
    ∃ lib', refreshClass config evidence rows lib = .ok lib' ∧
      (∀ row ∈ rows, ∃ entry', lib'.get? row.1 = some entry' ∧
        entry'.version = row.2.version ∧
        entry'.standing = refreshedStanding config evidence rows row.1 row.2) ∧
      ∀ ref, ref ∉ rows.map Prod.fst → lib'.row? ref = lib.row? ref := by
  let start := writeRefreshed (approvedRows evidence rows) lib
  have hstart (row) (hrow : row ∈ rows) : ∃ entry, start.get? row.1 = some entry ∧
      entry.version = row.2.version ∧ entry.status = row.2.status := by
    apply row?_eq_some.mp
    rw [row?_writeRefreshed]
    exact hrows row hrow
  obtain ⟨lib', hlib', hwritten, hframe⟩ := @sweep_spec
    (fun ref entry =>
      let wanted := refreshed config evidence rows ref entry
      if wanted.active = entry.loaded.active then none else some (wanted, none))
    rows start hnodup
    (fun row hrow => by
      obtain ⟨entry, hentry, -, hstatus⟩ := hstart row hrow
      exact ⟨entry, hentry, hstatus⟩)
    (fun row hrow status expected hchange => by
      dsimp only at hchange
      split at hchange
      · cases hchange
      · cases hchange
        -- What is written as approved is approved already.
        refine ⟨Or.inl rfl, fun hto => ?_⟩
        rw [refreshed, wantedStatus_lifecycle] at hto
        rw [lifecycle_of_loaded (by rw [hto]; decide), hto])
  refine ⟨lib', hlib', fun row hrow => ?_, fun ref href => ?_⟩
  · obtain ⟨entry, hentry, hversion, hstatus⟩ := hstart row hrow
    have hget := hwritten row hrow
    rw [hentry, Option.map_some] at hget
    refine ⟨_, hget, (written_version ..).trans hversion, ?_⟩
    exact standing_written hstatus (wantedStatus_lifecycle ..) fun h => (wantedStatus_active h).1
  · rw [← row?_writeRefreshed (approvedRows evidence rows) lib, Library.row?, hframe ref href]
    rfl

/-- The rows of a class. -/
def Library.classRows (lib : Library) (taskClass : String) : List (SkillRef × Entry) :=
  lib.iterLoaded.filter fun row => row.2.version.taskClass = taskClass

theorem mem_classRows {lib : Library} {taskClass : String} {ref : SkillRef} {entry : Entry} :
    (ref, entry) ∈ lib.classRows taskClass ↔
      lib.get? ref = some entry ∧ entry.version.taskClass = taskClass := by
  rw [Library.classRows, List.mem_filter, mem_iterLoaded, decide_eq_true_eq]

theorem nodup_classRows (lib : Library) (taskClass : String) :
    ((lib.classRows taskClass).map Prod.fst).Nodup :=
  (nodup_iterLoaded lib).sublist (List.filter_sublist.map Prod.fst)

/-- The refresh of the classes in turn: each of them once, from the rows of the library before. -/
theorem refreshClasses_spec (config : AutonomyConfig) (evidence : Option Evidence) (lib : Library)
    {classes : List String} (hclasses : classes.Nodup) {acc : Library}
    (hacc : ∀ ref entry, lib.get? ref = some entry → entry.version.taskClass ∈ classes →
      acc.row? ref = lib.row? ref) :
    ∃ lib', classes.foldlM (fun acc taskClass =>
        refreshClass config evidence (lib.classRows taskClass) acc) acc = .ok lib' ∧
      (∀ ref entry, lib.get? ref = some entry → entry.version.taskClass ∈ classes →
        ∃ entry', lib'.get? ref = some entry' ∧ entry'.version = entry.version ∧
          entry'.standing = refreshedStanding config evidence
            (lib.classRows entry.version.taskClass) ref entry) ∧
      ∀ ref, (∀ entry, lib.get? ref = some entry → entry.version.taskClass ∉ classes) →
        lib'.row? ref = acc.row? ref := by
  induction classes generalizing acc with
  | nil =>
    exact ⟨acc, rfl, fun _ _ _ hmem => (by cases hmem), fun _ _ => rfl⟩
  | cons taskClass classes ih =>
    obtain ⟨hnew, hnodup⟩ := List.nodup_cons.mp hclasses
    obtain ⟨mid, hmid, hrefreshed, hframe⟩ := @refreshClass_spec config evidence _ acc
      (nodup_classRows lib taskClass) (fun row hrow => by
        obtain ⟨hget, hclass⟩ := mem_classRows.mp hrow
        rw [hacc row.1 row.2 hget (hclass ▸ List.mem_cons_self), Library.row?, hget, Option.map_some])
    have hother (ref : SkillRef)
        (h : ∀ entry, lib.get? ref = some entry → entry.version.taskClass ≠ taskClass) :
        mid.row? ref = acc.row? ref := by
      apply hframe
      intro hmem
      obtain ⟨row, hrow, rfl⟩ := List.mem_map.mp hmem
      obtain ⟨hget, hclass⟩ := mem_classRows.mp hrow
      exact h row.2 hget hclass
    obtain ⟨lib', hlib', hrest, hframe'⟩ := @ih hnodup mid (fun ref entry hentry hmem => by
      rw [hother ref, hacc ref entry hentry (List.mem_cons_of_mem _ hmem)]
      intro other hother heq
      rw [hentry] at hother
      cases hother
      exact hnew (heq ▸ hmem))
    refine ⟨lib', ?_, fun ref entry hentry hmem => ?_, fun ref h => ?_⟩
    · rw [List.foldlM_cons]
      exact bind_eq_ok.mpr ⟨mid, hmid, hlib'⟩
    · rcases List.mem_cons.mp hmem with heq | hmem
      · obtain ⟨entry', hentry', hversion, hstanding⟩ :=
          hrefreshed (ref, entry) (mem_classRows.mpr ⟨hentry, heq⟩)
        have hrow : lib'.row? ref = some (entry'.version, entry'.status) := by
          rw [hframe' ref fun other hother => ?_]
          · exact row?_eq_some.mpr ⟨entry', hentry', rfl, rfl⟩
          · rw [hentry] at hother
            cases hother
            exact heq ▸ hnew
        obtain ⟨last, hlast, hversion', hstatus'⟩ := row?_eq_some.mp hrow
        refine ⟨last, hlast, hversion'.trans hversion, ?_⟩
        rw [Entry.standing, hstatus', heq]
        exact hstanding
      · exact hrest ref entry hentry hmem
    · rw [hframe' ref fun entry hentry hmem => h entry hentry (List.mem_cons_of_mem _ hmem)]
      exact hother ref fun entry hentry heq => h entry hentry (heq ▸ List.mem_cons_self)

/-- The classes are collected once each. -/
theorem taskClasses_spec (rows : List (SkillRef × Entry)) :
    (taskClasses rows).Nodup ∧ ∀ row ∈ rows, row.2.version.taskClass ∈ taskClasses rows := by
  induction rows using List.reverseRecOn with
  | nil => exact ⟨List.nodup_nil, fun row hrow => (by cases hrow)⟩
  | append_singleton rows row ih =>
    obtain ⟨hnodup, hmem⟩ := ih
    have hstep : taskClasses (rows ++ [row]) =
        if (taskClasses rows).contains row.2.version.taskClass then taskClasses rows
        else taskClasses rows ++ [row.2.version.taskClass] := by
      rw [taskClasses, List.foldl_append]
      rfl
    rw [hstep]
    split
    · rename_i hold
      refine ⟨hnodup, fun other hother => ?_⟩
      rcases List.mem_append.mp hother with hother | hother
      · exact hmem other hother
      · rw [List.mem_singleton.mp hother]
        exact List.contains_iff_mem.mp hold
    · rename_i hnew
      rw [List.contains_iff_mem] at hnew
      refine ⟨List.nodup_append_comm.mp (List.nodup_cons.mpr ⟨hnew, hnodup⟩), fun other hother => ?_⟩
      rcases List.mem_append.mp hother with hother | hother
      · exact List.mem_append_left _ (hmem other hother)
      · rw [List.mem_singleton.mp hother]
        exact List.mem_append_right _ (List.mem_singleton_self _)

/-- The recomputation returns, and puts every version where the refresh of its class wants it. -/
theorem recomputeActiveSet_spec (config : AutonomyConfig) (evidence : Option Evidence)
    (lib : Library) :
    ∃ lib', recomputeActiveSet config evidence lib = .ok lib' ∧
      (∀ ref entry, lib.get? ref = some entry → ∃ entry', lib'.get? ref = some entry' ∧
        entry'.version = entry.version ∧ entry'.standing = refreshedStanding config evidence
          (lib.classRows entry.version.taskClass) ref entry) ∧
      ∀ ref, lib.get? ref = none → lib'.get? ref = none := by
  obtain ⟨hnodup, hmem⟩ := taskClasses_spec lib.iterLoaded
  obtain ⟨lib', hlib', hrefreshed, hframe⟩ := @refreshClasses_spec config evidence lib _ hnodup lib
    fun _ _ _ _ => rfl
  refine ⟨lib', hlib', fun ref entry hentry => ?_, fun ref hnone => ?_⟩
  · exact hrefreshed ref entry hentry (hmem (ref, entry) (mem_iterLoaded.mpr hentry))
  · have hrow := hframe ref fun entry hentry => by
      rw [hnone] at hentry
      cases hentry
    rw [Library.row?, Library.row?, hnone, Option.map_none] at hrow
    exact Option.map_eq_none_iff.mp hrow

end Recertia.Skill
