import Recertia.Lib.Budget
import Recertia.Skill.Composition

/-! Revocations over many drains: which versions the queue names, what one drain marks and leaves over,
and when every named version is marked by the time the queue is empty. -/
namespace Recertia.Skill

open Budget

/-- The targets of an item, each with the versions that pin it. -/
def Library.groupsOf (lib : Library) (item : Revoke) : List (List SkillRef) :=
  (lookup lib.index item).map fun target => target :: lib.parentsOf target

/-- What comes up in a drain: the items with their targets and parents, then more targets with
theirs. -/
def Library.comesUp (lib : Library) (items : List Revoke) (targets : List SkillRef) :
    List SkillRef :=
  keysOf lib.groupsOf items ++ targets.flatMap fun target => target :: lib.parentsOf target

/-- The queue names a version that its lineage lists, or that pins one of these. -/
def Library.Due (lib : Library) (ref : SkillRef) : Prop :=
  ∃ item ∈ lib.queue, ∃ target ∈ lookup lib.index item,
    ref = target ∨ ref ∈ lib.parentsOf target

/-- A drain in progress and the marks of the loop agree. -/
structure Simulates (lib : Library) (d : Drain) (s : Marks SkillRef) : Prop where
  reached : d.From lib
  left : d.remaining = s.left
  marked : d.touched = s.marked

theorem Simulates.mark {lib : Library} {d : Drain} {s : Marks SkillRef} (h : Simulates lib d s)
    (ref : SkillRef) : Simulates lib (d.mark ref) (s.mark lib.markable ref) := by
  have hiff := h.reached.moves.markable_iff ref
  rw [h.marked] at hiff
  have hsame : (d.mark ref).remaining = (s.mark lib.markable ref).left ∧
      (d.mark ref).touched = (s.mark lib.markable ref).marked := by
    unfold Drain.mark Marks.mark
    cases hmark : d.lib.markNeedsRecert ref with
    | none =>
      have hnot : ¬ (lib.markable ref = true ∧ ref ∉ s.marked) := by
        intro hboth
        obtain ⟨lib', hlib'⟩ := markNeedsRecert_isSome (hiff.mpr hboth)
        rw [hmark] at hlib'
        cases hlib'
      rw [if_neg hnot]
      exact ⟨h.left, h.marked⟩
    | some lib' =>
      have hboth := hiff.mp (markNeedsRecert_eq_some hmark).1
      rw [if_pos hboth]
      exact ⟨congrArg (· - 1) h.left, congrArg (· ++ [ref]) h.marked⟩
  exact ⟨h.reached.mark ref, hsame.1, hsame.2⟩

theorem Simulates.markParents {lib : Library} {d : Drain} {s : Marks SkillRef}
    (h : Simulates lib d s) (refs : List SkillRef) :
    Simulates lib (Skill.markParents refs d) (visit lib.markable refs s) := by
  induction refs generalizing d s with
  | nil => exact h
  | cons ref refs ih =>
    rw [Skill.markParents, visit, h.left]
    split
    · exact h
    · exact ih (h.mark ref)

theorem Simulates.drainTargets {lib : Library} {d : Drain} {s : Marks SkillRef}
    (h : Simulates lib d s) (parentsOf : SkillRef → List SkillRef) (targets : List SkillRef) :
    let groups := targets.map fun target => target :: parentsOf target
    Simulates lib (Skill.drainTargets parentsOf targets d).1 (visitGroups lib.markable groups s).1 ∧
      (Skill.drainTargets parentsOf targets d).2 = (visitGroups lib.markable groups s).2 := by
  induction targets generalizing d s with
  | nil => exact ⟨h, rfl⟩
  | cons target targets ih =>
    simp only [List.map_cons, Skill.drainTargets, visitGroups, h.left]
    split
    · exact ⟨h, rfl⟩
    · rename_i hleft
      rw [visit, if_neg hleft]
      exact ih ((h.mark target).markParents (parentsOf target))

theorem Simulates.drainItems {lib : Library} {d : Drain} {s : Marks SkillRef}
    (h : Simulates lib d s) (items : List Revoke) :
    Simulates lib (Skill.drainItems lib.index lib.parentsOf items d).1
        (visitItems lib.markable lib.groupsOf items s).1 ∧
      (Skill.drainItems lib.index lib.parentsOf items d).2 =
        (visitItems lib.markable lib.groupsOf items s).2 := by
  induction items generalizing d s with
  | nil => exact ⟨h, rfl⟩
  | cons item items ih =>
    rw [Skill.drainItems, visitItems, h.left]
    split
    · obtain ⟨hmarks, hover⟩ := ih h
      exact ⟨hmarks, congrArg (item :: ·) hover⟩
    · obtain ⟨hitem, hleft⟩ := h.drainTargets lib.parentsOf (lookup lib.index item)
      obtain ⟨hmarks, hover⟩ := ih hitem
      refine ⟨hmarks, ?_⟩
      dsimp only
      rw [hover, hleft]
      rfl

/-- One drain as a run of the capped loop over the items that it takes. -/
theorem drainRevokes_eq (maxWrites : ℕ) (lib : Library) :
    let out := visitItems lib.markable lib.groupsOf (lib.queue.take maxWrites) ⟨maxWrites, []⟩
    (drainRevokes maxWrites lib).2 = out.1.marked ∧
      (drainRevokes maxWrites lib).1.queue =
        lib.queue.drop maxWrites ++ out.2.map Revoke.requeued ∧
      (drainRevokes maxWrites lib).1.index = lib.index := by
  let start : Library := { lib with queue := lib.queue.drop maxWrites }
  have hstart : Simulates start { lib := start, remaining := maxWrites } ⟨maxWrites, []⟩ :=
    ⟨⟨(moves_refl start).congr fun _ _ _ => rfl, fun r hr => (by cases hr), rfl, rfl⟩, rfl, rfl⟩
  obtain ⟨hend, hover⟩ := hstart.drainItems (lib.queue.take maxWrites)
  refine ⟨hend.marked, ?_, hend.reached.index⟩
  exact congrArg₂ (· ++ ·) hend.reached.queue (congrArg (List.map Revoke.requeued) hover)

theorem mem_parentsOf {lib : Library} {ref child : SkillRef} :
    ref ∈ lib.parentsOf child ↔ lib.Uses ref child := by
  rw [Library.parentsOf, List.mem_map]
  constructor
  · rintro ⟨⟨r, entry⟩, hrow, rfl⟩
    obtain ⟨hrow, huses⟩ := List.mem_filter.mp hrow
    exact ⟨entry, mem_iterLoaded.mp hrow, List.contains_iff_mem.mp huses⟩
  · rintro ⟨entry, hentry, huses⟩
    refine ⟨(ref, entry), List.mem_filter.mpr ⟨mem_iterLoaded.mpr hentry, ?_⟩, rfl⟩
    exact List.contains_iff_mem.mpr huses

theorem mem_groupsOf {lib : Library} {item : Revoke} {ref : SkillRef} :
    ref ∈ (lib.groupsOf item).flatten ↔
      ∃ target ∈ lookup lib.index item, ref = target ∨ ref ∈ lib.parentsOf target := by
  rw [Library.groupsOf, ← List.flatMap_def, List.mem_flatMap]
  simp only [List.mem_cons]

theorem due_iff {lib : Library} {ref : SkillRef} :
    lib.Due ref ↔ ref ∈ keysOf lib.groupsOf lib.queue := by
  rw [mem_keysOf]
  simp only [mem_groupsOf]
  rfl

section Step
variable (maxWrites : ℕ) (lib : Library)

theorem mem_groupsOf_drain (item : Revoke) (ref : SkillRef) :
    ref ∈ ((drainRevokes maxWrites lib).1.groupsOf item).flatten ↔
      ref ∈ (lib.groupsOf item).flatten := by
  obtain ⟨hmoves, -⟩ := drainRevokes_moves maxWrites lib
  obtain ⟨-, -, hindex⟩ := drainRevokes_eq maxWrites lib
  simp only [mem_groupsOf, hindex, mem_parentsOf, uses_congr hmoves]

theorem markable_drain (ref : SkillRef) :
    (drainRevokes maxWrites lib).1.markable ref = true ↔
      lib.markable ref = true ∧ ref ∉ (drainRevokes maxWrites lib).2 :=
  (drainRevokes_moves maxWrites lib).1.markable_iff ref

/-- What the queue names behind a drain: the items that it did not take, and those left over. -/
theorem due_drain_iff (ref : SkillRef) :
    (drainRevokes maxWrites lib).1.Due ref ↔
      ref ∈ keysOf lib.groupsOf (lib.queue.drop maxWrites) ∨
        ∃ item ∈ (visitItems lib.markable lib.groupsOf (lib.queue.take maxWrites)
          ⟨maxWrites, []⟩).2, ref ∈ (lib.groupsOf item).flatten := by
  obtain ⟨-, hqueue, -⟩ := drainRevokes_eq maxWrites lib
  rw [due_iff, hqueue, keysOf_append, List.mem_append, mem_keysOf, mem_keysOf, mem_keysOf]
  simp only [mem_groupsOf_drain, List.mem_map, exists_exists_and_eq_and]
  rfl

/-- What a drain has marked was named by the queue. -/
theorem due_of_marked {ref : SkillRef} (h : ref ∈ (drainRevokes maxWrites lib).2) : lib.Due ref := by
  rw [(drainRevokes_eq maxWrites lib).1, visitItems_marks, mem_marked_iff] at h
  obtain ⟨-, pre, post, hsplit, -⟩ := h
  have hmem : ref ∈ keysOf lib.groupsOf (lib.queue.take maxWrites) := by
    rw [hsplit]
    simp
  obtain ⟨item, hitem, hkey⟩ := mem_keysOf.mp hmem
  exact due_iff.mpr (mem_keysOf.mpr ⟨item, List.mem_of_mem_take hitem, hkey⟩)

theorem due_of_due_drain {ref : SkillRef} (h : (drainRevokes maxWrites lib).1.Due ref) :
    lib.Due ref := by
  rw [due_iff, mem_keysOf]
  rcases (due_drain_iff maxWrites lib ref).mp h with hrest | ⟨item, hitem, hkey⟩
  · obtain ⟨item, hitem, hkey⟩ := mem_keysOf.mp hrest
    exact ⟨item, List.mem_of_mem_drop hitem, hkey⟩
  · obtain ⟨before, after, hsplit, -⟩ := mem_leftover.mp hitem
    refine ⟨item, List.mem_of_mem_take (i := maxWrites) ?_, hkey⟩
    rw [hsplit]
    simp

/-- A drain forgets a version that still needs its mark: the queue named it, and names it no more. -/
def Forgets (ref : SkillRef) : Prop :=
  lib.Due ref ∧ (drainRevokes maxWrites lib).1.markable ref = true ∧
    ¬ (drainRevokes maxWrites lib).1.Due ref

theorem forgets_iff_lost (ref : SkillRef) :
    Forgets maxWrites lib ref ↔
      Lost lib.markable lib.groupsOf maxWrites (lib.queue.take maxWrites) ref ∧
        ref ∉ keysOf lib.groupsOf (lib.queue.drop maxWrites) := by
  unfold Forgets
  rw [markable_drain, due_drain_iff, (drainRevokes_eq maxWrites lib).1, not_or, due_iff,
    ← List.take_append_drop maxWrites lib.queue, keysOf_append, List.mem_append,
    List.take_append_drop]
  constructor
  · rintro ⟨hdue, ⟨hmarkable, hunmarked⟩, hrest, hover⟩
    refine ⟨⟨hmarkable, hdue.resolve_right hrest, hunmarked, fun item hitem hkey => ?_⟩, hrest⟩
    exact hover ⟨item, hitem, hkey⟩
  · rintro ⟨⟨hmarkable, hvisited, hunmarked, hgone⟩, hrest⟩
    refine ⟨Or.inl hvisited, ⟨hmarkable, hunmarked⟩, hrest, ?_⟩
    rintro ⟨item, hitem, hkey⟩
    exact hgone item hitem hkey

end Step

/-- The marks that run out among the parents of an item's last target: in front of a parent that needs
one, has not come up before in this drain, and is named by no item after this one. -/
def Loses (maxWrites : ℕ) (lib : Library) : Prop :=
  ∃ before item after targets target seen ref more,
    lib.queue = before ++ item :: after ∧ before.length < maxWrites ∧
    lookup lib.index item = targets ++ [target] ∧ lib.parentsOf target = seen ++ ref :: more ∧
    need lib.markable (lib.comesUp before targets) < maxWrites ∧
    maxWrites ≤ need lib.markable (lib.comesUp before targets ++ target :: seen) ∧
    lib.markable ref = true ∧ ref ∉ lib.comesUp before targets ++ target :: seen ∧
    ref ∉ keysOf lib.groupsOf after

theorem loses_of_forgets {maxWrites : ℕ} {lib : Library} {ref : SkillRef}
    (h : Forgets maxWrites lib ref) : Loses maxWrites lib := by
  obtain ⟨hlost, hrest⟩ := (forgets_iff_lost maxWrites lib ref).mp h
  obtain ⟨before, item, after, gs, pre, post, htake, hgroups, hroom, hout, hmarkable, hfirst, hafter⟩ :=
    lost_iff_runsOut.mp hlost
  obtain ⟨targets, last, hlookup, hgs, hlast⟩ := List.map_eq_append_iff.mp hgroups
  obtain ⟨target, htarget, hgroup⟩ := List.map_eq_singleton_iff.mp hlast
  have hflat : gs.flatten = targets.flatMap fun target => target :: lib.parentsOf target := by
    rw [← hgs, List.flatMap_def]
  -- The target of the group has its turn, so the version is one of the parents.
  cases pre with
  | nil =>
    rw [List.append_nil] at hout
    exact absurd hroom (Nat.not_lt.mpr hout)
  | cons first seen =>
    obtain ⟨hfirst', hparents⟩ := List.cons.inj hgroup
    rw [hflat] at hroom hout hfirst
    rw [← hfirst'] at hout hfirst
    refine ⟨before, item, after ++ lib.queue.drop maxWrites, targets, target, seen, ref, post, ?_, ?_,
      by rw [hlookup, htarget], hparents, hroom, hout, hmarkable, hfirst, ?_⟩
    · rw [← List.cons_append, ← List.append_assoc, ← htake, List.take_append_drop]
    · have hlength := congrArg List.length htake
      rw [List.length_append, List.length_cons, List.length_take] at hlength
      omega
    · rw [keysOf_append, List.mem_append, not_or]
      exact ⟨hafter, hrest⟩

theorem forgets_of_loses {maxWrites : ℕ} {lib : Library} (h : Loses maxWrites lib) :
    ∃ ref, Forgets maxWrites lib ref := by
  obtain ⟨before, item, after, targets, target, seen, ref, more, hqueue, hlength, hlookup, hparents,
    hroom, hout, hmarkable, hfirst, hafter⟩ := h
  have hflat : (targets.map fun target => target :: lib.parentsOf target).flatten =
      targets.flatMap fun target => target :: lib.parentsOf target := by
    rw [List.flatMap_def]
  obtain ⟨rest, hrest⟩ : ∃ rest, maxWrites = (before ++ [item]).length + rest :=
    ⟨maxWrites - (before ++ [item]).length, by simp; omega⟩
  have hsplit : lib.queue = (before ++ [item]) ++ after := by rw [hqueue, List.append_cons]
  have htake : lib.queue.take maxWrites = before ++ item :: after.take rest := by
    rw [hsplit, hrest, List.take_length_add_append, ← List.append_cons]
  have hdrop : lib.queue.drop maxWrites = after.drop rest := by
    rw [hsplit, hrest, List.drop_length_add_append]
  have hmem : ∀ part : List Revoke, (∀ i ∈ part, i ∈ after) → ref ∉ keysOf lib.groupsOf part := by
    intro part hpart hkey
    obtain ⟨i, hi, hkey⟩ := mem_keysOf.mp hkey
    exact hafter (mem_keysOf.mpr ⟨i, hpart i hi, hkey⟩)
  refine ⟨ref, (forgets_iff_lost maxWrites lib ref).mpr ⟨lost_iff_runsOut.mpr ?_, ?_⟩⟩
  · refine ⟨before, item, after.take rest, targets.map fun target => target :: lib.parentsOf target,
      target :: seen, more, htake, ?_, ?_, ?_, hmarkable, ?_, ?_⟩
    · rw [Library.groupsOf, hlookup, List.map_append, List.map_singleton, hparents]
      rfl
    · rw [hflat]
      exact hroom
    · rw [hflat]
      exact hout
    · rw [hflat]
      exact hfirst
    · exact hmem _ fun i hi => List.mem_of_mem_take hi
  · rw [hdrop]
    exact hmem _ fun i hi => List.mem_of_mem_drop hi

theorem forgets_iff_loses (maxWrites : ℕ) (lib : Library) :
    (∃ ref, Forgets maxWrites lib ref) ↔ Loses maxWrites lib :=
  ⟨fun ⟨_, h⟩ => loses_of_forgets h, forgets_of_loses⟩

/-- The library behind a number of drains, with nothing enqueued between them. -/
def drained (maxWrites : ℕ) (lib : Library) : ℕ → Library
  | 0 => lib
  | n + 1 => (drainRevokes maxWrites (drained maxWrites lib n)).1

/-- How many versions still change when they are marked, and how many items wait. -/
def Library.pending (lib : Library) : ℕ :=
  lib.entries.count (fun _ entry => entry.needsMark) + lib.queue.length

theorem markable_of_get? {lib : Library} {ref : SkillRef} {entry : Entry}
    (h : lib.get? ref = some entry) : lib.markable ref = entry.needsMark := by
  rw [Library.markable, h, Option.any_some]

/-- No version needs a mark behind a drain that did not before. -/
theorem needsMark_before (maxWrites : ℕ) {lib : Library} {ref : SkillRef} {entry' : Entry}
    (hentry' : (drainRevokes maxWrites lib).1.get? ref = some entry')
    (hneeds : entry'.needsMark = true) :
    ref ∉ (drainRevokes maxWrites lib).2 ∧
      ∃ entry, lib.get? ref = some entry ∧ entry.needsMark = true := by
  rw [← markable_of_get? hentry', markable_drain] at hneeds
  obtain ⟨entry, hentry, -⟩ := (drainRevokes_moves maxWrites lib).1.before hentry'
  exact ⟨hneeds.2, entry, hentry, markable_of_get? hentry ▸ hneeds.1⟩

/-- A drain of a queue with items marks a version or shortens the queue. -/
theorem pending_drain_lt {maxWrites : ℕ} (hwrites : 1 ≤ maxWrites) {lib : Library}
    (hqueue : lib.queue ≠ []) : (drainRevokes maxWrites lib).1.pending < lib.pending := by
  obtain ⟨hmarked, hrest, -⟩ := drainRevokes_eq maxWrites lib
  have hpos : 0 < lib.queue.length := List.length_pos_of_ne_nil hqueue
  have hlength := congrArg List.length hrest
  rw [List.length_append, List.length_map, List.length_drop] at hlength
  have hsub : (visitItems lib.markable lib.groupsOf (lib.queue.take maxWrites)
      ⟨maxWrites, []⟩).2.length ≤ (lib.queue.take maxWrites).length :=
    (leftover_sublist _ _).length_le
  rw [List.length_take] at hsub
  unfold Library.pending
  cases hover : (visitItems lib.markable lib.groupsOf (lib.queue.take maxWrites)
      ⟨maxWrites, []⟩).2 with
  | nil =>
    have hle : (drainRevokes maxWrites lib).1.entries.count (fun _ entry => entry.needsMark) ≤
        lib.entries.count (fun _ entry => entry.needsMark) + 0 :=
      Table.count_le [] fun ref entry' hentry' hneeds =>
        Or.inr (needsMark_before maxWrites hentry' hneeds).2
    rw [hover, List.length_nil] at hlength
    omega
  | cons item items =>
    -- The marks were used up, so at least one version was marked.
    have hfull := length_marked_of_leftover (hover ▸ List.mem_cons_self)
    rw [← hmarked] at hfull
    obtain ⟨ref, hmem⟩ : ∃ ref, ref ∈ (drainRevokes maxWrites lib).2 :=
      List.exists_mem_of_length_pos (by omega)
    obtain ⟨entry, status, hentry, hstatus, hrevoked⟩ :=
      markable_iff.mp ((drainRevokes_moves maxWrites lib).2 ref hmem)
    have hneeds : entry.needsMark = true := by
      rw [← markable_of_get? hentry]
      exact (drainRevokes_moves maxWrites lib).2 ref hmem
    have hlt : (drainRevokes maxWrites lib).1.entries.count (fun _ entry => entry.needsMark) <
        lib.entries.count (fun _ entry => entry.needsMark) := by
      apply Table.count_lt hentry hneeds
      · intro entry' hentry'
        by_contra hstill
        rw [Bool.not_eq_false] at hstill
        exact (needsMark_before maxWrites hentry' hstill).1 hmem
      · intro r entry' hentry' hstill
        exact (needsMark_before maxWrites hentry' hstill).2
    omega

/-- Enough drains empty the queue. -/
theorem exists_queue_nil {maxWrites : ℕ} (hwrites : 1 ≤ maxWrites) (lib : Library) :
    ∃ n, (drained maxWrites lib n).queue = [] := by
  by_contra hnever
  rw [not_exists] at hnever
  have hfall : ∀ n, (drained maxWrites lib n).pending + n ≤ lib.pending := by
    intro n
    induction n with
    | zero => exact le_refl _
    | succ n ih =>
      have hlt : (drained maxWrites lib (n + 1)).pending < (drained maxWrites lib n).pending :=
        pending_drain_lt hwrites (hnever n)
      omega
  have hmany := hfall (lib.pending + 1)
  omega

/-- A stored version has a status. -/
def Library.HasStatus (lib : Library) (ref : SkillRef) : Prop :=
  ∀ entry, lib.get? ref = some entry → entry.status.isSome = true

/-- A stored version is at `needs_recert`, or at a stricter lifecycle. -/
def Library.Revoked (lib : Library) (ref : SkillRef) : Prop :=
  ∀ entry, lib.get? ref = some entry →
    ∃ status, entry.status = some status ∧ status.lifecycle.revoked = true

theorem revoked_iff {lib : Library} {ref : SkillRef} :
    lib.Revoked ref ↔ lib.HasStatus ref ∧ lib.markable ref = false := by
  unfold Library.Revoked Library.HasStatus Library.markable
  cases lib.get? ref with
  | none => simp
  | some entry =>
    simp only [Option.some.injEq, forall_eq', Option.any_some, Entry.needsMark]
    cases entry.status with
    | none => simp
    | some status => simp

theorem hasStatus_drain (maxWrites : ℕ) (lib : Library) (ref : SkillRef) :
    (drainRevokes maxWrites lib).1.HasStatus ref ↔ lib.HasStatus ref := by
  obtain ⟨hmoves, hmarkable⟩ := drainRevokes_moves maxWrites lib
  have hsome {entry : Entry} : entry.status.isSome = entry.standing.isSome := by
    rw [Entry.standing, Option.isSome_map]
  constructor
  · intro h entry hentry
    obtain ⟨entry', hentry', -, hstanding⟩ := hmoves.after hentry
    have hafter := h entry' hentry'
    split at hstanding
    · rename_i hmem
      obtain ⟨other, status, hother, hstatus, -⟩ := markable_iff.mp (hmarkable ref hmem)
      cases hentry.symm.trans hother
      rw [hstatus]
      rfl
    · rw [hsome, hstanding, Option.map_none, Option.none_or] at hafter
      rw [hsome, hafter]
  · intro h entry' hentry'
    obtain ⟨entry, hentry, -, hstanding⟩ := hmoves.before hentry'
    rw [hsome, hstanding]
    split
    · rfl
    · rw [Option.map_none, Option.none_or, ← hsome]
      exact h entry hentry

theorem hasStatus_drained (maxWrites : ℕ) (lib : Library) (n : ℕ) (ref : SkillRef) :
    (drained maxWrites lib n).HasStatus ref ↔ lib.HasStatus ref := by
  induction n with
  | zero => rfl
  | succ n ih => rw [drained, hasStatus_drain, ih]

theorem due_of_drained {maxWrites : ℕ} {lib : Library} {n : ℕ} {ref : SkillRef}
    (h : (drained maxWrites lib n).Due ref) : lib.Due ref := by
  induction n with
  | zero => exact h
  | succ n ih => exact ih (due_of_due_drain maxWrites _ h)

theorem not_due_of_queue_nil {lib : Library} (h : lib.queue = []) (ref : SkillRef) :
    ¬ lib.Due ref := by
  rintro ⟨item, hitem, -⟩
  rw [h] at hitem
  cases hitem

theorem queue_stays_nil {maxWrites : ℕ} {lib : Library} {n : ℕ}
    (h : (drained maxWrites lib n).queue = []) (m : ℕ) :
    (drained maxWrites lib (n + m)).queue = [] := by
  induction m with
  | zero => exact h
  | succ m ih =>
    obtain ⟨-, hqueue, -⟩ := drainRevokes_eq maxWrites (drained maxWrites lib (n + m))
    rw [ih, List.take_nil, List.drop_nil, visitItems] at hqueue
    exact hqueue

/-- What a drain has forgotten is never marked by a later one. -/
theorem forgotten_stays {maxWrites : ℕ} {lib : Library} {ref : SkillRef} {k : ℕ}
    (h : Forgets maxWrites (drained maxWrites lib k) ref) (m : ℕ) :
    (drained maxWrites lib (k + 1 + m)).markable ref = true ∧
      ¬ (drained maxWrites lib (k + 1 + m)).Due ref := by
  induction m with
  | zero => exact h.2
  | succ m ih =>
    obtain ⟨hmarkable, hnot⟩ := ih
    refine ⟨?_, fun hdue => hnot (due_of_due_drain maxWrites _ hdue)⟩
    rw [← Nat.add_assoc, drained, markable_drain]
    exact ⟨hmarkable, fun hmem => hnot (due_of_marked maxWrites _ hmem)⟩

/-- As long as no drain forgets it, a version that was due and needs its mark is due. -/
theorem due_of_markable {maxWrites : ℕ} {lib : Library} {ref : SkillRef} (hdue : lib.Due ref)
    (h : ∀ n, ¬ Loses maxWrites (drained maxWrites lib n)) (n : ℕ)
    (hmarkable : (drained maxWrites lib n).markable ref = true) :
    (drained maxWrites lib n).Due ref := by
  induction n with
  | zero => exact hdue
  | succ n ih =>
    have hbefore := ih ((markable_drain maxWrites _ ref).mp hmarkable).1
    by_contra hnot
    exact h n (loses_of_forgets ⟨hbefore, hmarkable, hnot⟩)

/-- Enough drains empty the queue and bring every version that it named to `needs_recert` or
further exactly when these versions have a status and none of the drains loses one. -/
theorem revocations_kept_iff {maxWrites : ℕ} (hwrites : 1 ≤ maxWrites) (lib : Library) :
    (∃ n, (drained maxWrites lib n).queue = [] ∧
      ∀ ref, lib.Due ref → (drained maxWrites lib n).Revoked ref) ↔
    (∀ ref, lib.Due ref → lib.HasStatus ref) ∧
      ∀ n, ¬ Loses maxWrites (drained maxWrites lib n) := by
  constructor
  · rintro ⟨n, hqueue, hrevoked⟩
    refine ⟨fun ref hdue => ?_, fun k hloses => ?_⟩
    · exact (hasStatus_drained maxWrites lib n ref).mp (revoked_iff.mp (hrevoked ref hdue)).1
    · obtain ⟨ref, hforgets⟩ := forgets_of_loses hloses
      have hunmarked := (revoked_iff.mp (hrevoked ref (due_of_drained hforgets.1))).2
      rcases Nat.lt_or_ge k n with hlt | hge
      · obtain ⟨m, rfl⟩ := Nat.exists_eq_add_of_le hlt
        rw [(forgotten_stays hforgets m).1] at hunmarked
        cases hunmarked
      · obtain ⟨m, rfl⟩ := Nat.exists_eq_add_of_le hge
        exact not_due_of_queue_nil (queue_stays_nil hqueue m) ref hforgets.1
  · rintro ⟨hstatus, hkeeps⟩
    obtain ⟨n, hqueue⟩ := exists_queue_nil hwrites lib
    refine ⟨n, hqueue, fun ref hdue => revoked_iff.mpr ⟨?_, ?_⟩⟩
    · exact (hasStatus_drained maxWrites lib n ref).mpr (hstatus ref hdue)
    · rw [← Bool.not_eq_true]
      intro hmarkable
      exact not_due_of_queue_nil hqueue ref (due_of_markable hdue hkeeps n hmarkable)

namespace Revocation

def parse : SkillRef := ⟨"parse", 1⟩

def report : SkillRef := ⟨"report", 1⟩

def candidateEntry (uses : List SkillRef) (h : uses.Nodup) : Entry where
  version := { taskClass := "etl", uses, usesUnique := h }
  status := some { lifecycle := .candidate
                   activeRetrievable := retrievable_of_inactive .candidate }

/-- A revoked version that two others pin. -/
def pinned : Library where
  entries :=
    { rows := [(parse, candidateEntry [] List.nodup_nil),
        (⟨"clean", 1⟩, candidateEntry [parse] (List.nodup_singleton _)),
        (report, candidateEntry [parse] (List.nodup_singleton _))]
      nodup := by simp [parse, report] }
  index := { rows := [("skill:parse@1", ["parse@1"])], nodup := List.nodup_singleton _ }
  queue := [⟨"skill", "parse@1", "quarantine_version"⟩]

end Revocation

theorem revocations_kept_iff_pinned :
    (∃ n, (drained 2 Revocation.pinned n).queue = [] ∧
      ∀ ref, Revocation.pinned.Due ref → (drained 2 Revocation.pinned n).Revoked ref) ↔
    (∀ ref, Revocation.pinned.Due ref → Revocation.pinned.HasStatus ref) ∧
      ∀ n, ¬ Loses 2 (drained 2 Revocation.pinned n) :=
  revocations_kept_iff (by decide) Revocation.pinned

/-- With two writes the second of two parents is never marked. -/
theorem second_parent_lost :
    ¬ ∃ n, (drained 2 Revocation.pinned n).queue = [] ∧
      ∀ ref, Revocation.pinned.Due ref → (drained 2 Revocation.pinned n).Revoked ref := by
  have hlookup : lookup Revocation.pinned.index ⟨"skill", "parse@1", "quarantine_version"⟩ =
      [Revocation.parse] := by decide +kernel
  have hparent : Revocation.report ∈ Revocation.pinned.parentsOf Revocation.parse := by
    decide +kernel
  have hdue : Revocation.pinned.Due Revocation.report :=
    ⟨_, List.mem_singleton_self _, _, hlookup ▸ List.mem_singleton_self _, Or.inr hparent⟩
  have hqueue : (drainRevokes 2 Revocation.pinned).1.queue = [] := by decide +kernel
  have hmarkable : (drainRevokes 2 Revocation.pinned).1.markable Revocation.report = true := by
    decide +kernel
  have hforgets : Forgets 2 (drained 2 Revocation.pinned 0) Revocation.report :=
    ⟨hdue, hmarkable, not_due_of_queue_nil hqueue _⟩
  rintro ⟨n, hnil, hrevoked⟩
  cases n with
  | zero => cases hnil
  | succ n =>
    have hunmarked := (revoked_iff.mp (hrevoked _ hdue)).2
    have hstill := (forgotten_stays hforgets n).1
    rw [Nat.zero_add, Nat.add_comm 1 n] at hstill
    rw [hunmarked] at hstill
    cases hstill

end Recertia.Skill
