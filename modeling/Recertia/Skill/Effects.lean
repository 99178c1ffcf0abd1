import Recertia.Lib.Fallible
import Recertia.Skill.Operations

/-! What each operation writes to the status of a version. -/
namespace Recertia.Skill

open Fallible

theorem get?_putStatus (lib : Library) (ref : SkillRef) (status : SkillStatus) (r : SkillRef) :
    (lib.putStatus ref status).get? r =
      (lib.get? r).map fun e => if r = ref then { e with status := some status } else e := by
  simp only [Library.putStatus, Library.get?, Table.get?_update, decide_eq_true_eq]

theorem get?_putStats (lib : Library) (ref : SkillRef) (stats : SkillStats) (r : SkillRef) :
    (lib.putStats ref stats).get? r =
      (lib.get? r).map fun e => if r = ref then { e with stats := some stats } else e := by
  simp only [Library.putStats, Library.get?, Table.get?_update, decide_eq_true_eq]

theorem getStatus_eq_ok {lib : Library} {ref : SkillRef} {status : SkillStatus} :
    lib.getStatus ref = .ok status ↔
      ∃ entry, lib.get? ref = some entry ∧ entry.status = some status := by
  unfold Library.getStatus
  constructor
  · intro h
    split at h
    · cases h
    · rename_i found hfound
      cases h
      exact Option.bind_eq_some_iff.mp hfound
  · intro h
    rw [Option.bind_eq_some_iff.mpr h]

theorem elim_eq_ok {found : Option Entry} {e : LibraryError} {entry : Entry} :
    found.elim (.error e) Except.ok = .ok entry ↔ found = some entry := by
  cases found <;> simp

theorem loaded_of_status {entry : Entry} {status : SkillStatus} (h : entry.status = some status) :
    entry.loaded = status := by
  simp only [Entry.loaded, h, Option.getD_some]

/-- The status that a write can put over an entry. -/
structure Writable (entry : Entry) (status : SkillStatus) (expected : Option Lifecycle) : Prop where
  expected : expected = none ∨ entry.status.map SkillStatus.lifecycle = expected
  approved : status.lifecycle = .approved →
    entry.status.map SkillStatus.lifecycle = some .approved

theorem writeStatus_eq_ok {lib lib' : Library} {ref : SkillRef} {status : SkillStatus}
    {expected : Option Lifecycle} (h : lib.writeStatus ref status expected = .ok lib') :
    ∃ entry, lib.get? ref = some entry ∧ Writable entry status expected ∧
      lib'.entries = (lib.putStatus ref status).entries := by
  unfold Library.writeStatus at h
  split at h
  · cases h
  · rename_i entry hentry
    refine ⟨entry, hentry, ?_⟩
    dsimp only at h
    split at h
    · cases h
    · rename_i hexpected
      split at h
      · cases h
      · rename_i happroved
        cases h
        refine ⟨⟨?_, fun hto => ?_⟩, rfl⟩
        · cases expected with
          | none => exact Or.inl rfl
          | some lifecycle =>
            right
            by_contra hne
            exact hexpected ⟨rfl, hne⟩
        · by_contra hne
          exact happroved ⟨hto, hne⟩

theorem writeStatus_frame {lib lib' : Library} {ref : SkillRef} {status : SkillStatus}
    {expected : Option Lifecycle} (h : lib.writeStatus ref status expected = .ok lib')
    (hto : status.lifecycle ≠ .quarantined) :
    lib'.index = lib.index ∧ lib'.queue = lib.queue := by
  unfold Library.writeStatus at h
  split at h
  · cases h
  · simp only [hto, false_and, if_false, List.append_nil] at h
    split at h
    · cases h
    · split at h
      · cases h
      · cases h
        exact ⟨rfl, rfl⟩

theorem writeStatus_of_writable {lib : Library} {ref : SkillRef} {entry : Entry}
    {status : SkillStatus} {expected : Option Lifecycle} (hentry : lib.get? ref = some entry)
    (h : Writable entry status expected) :
    ∃ lib', lib.writeStatus ref status expected = .ok lib' ∧
      lib'.entries = (lib.putStatus ref status).entries := by
  unfold Library.writeStatus
  simp only [hentry]
  rw [if_neg, if_neg]
  · exact ⟨_, rfl, rfl⟩
  · exact fun hboth => hboth.2 (h.approved hboth.1)
  · rintro ⟨hsome, hne⟩
    rcases h.expected with hnone | hsame
    · rw [hnone] at hsome
      cases hsome
    · exact hne hsame

/-- A status that is no approval is written without an expectation. -/
theorem writable_of_ne {entry : Entry} {status : SkillStatus} (h : status.lifecycle ≠ .approved) :
    Writable entry status none := ⟨Or.inl rfl, fun hto => absurd hto h⟩

theorem writable_expected {entry : Entry} {status old : SkillStatus}
    (hold : entry.status = some old) (h : status.lifecycle ≠ .approved) :
    Writable entry status (some old.lifecycle) :=
  ⟨Or.inr (by rw [hold]; rfl), fun hto => absurd hto h⟩

theorem mem_iterLoaded {lib : Library} {ref : SkillRef} {entry : Entry} :
    (ref, entry) ∈ lib.iterLoaded ↔ lib.get? ref = some entry := by
  rw [Library.iterLoaded, (List.perm_insertionSort _ _).mem_iff]
  exact Table.get?_eq_some.symm

theorem nodup_iterLoaded (lib : Library) : (lib.iterLoaded.map Prod.fst).Nodup :=
  ((List.perm_insertionSort _ lib.entries.rows).map Prod.fst).nodup_iff.mpr lib.entries.nodup

/-- An entry behind the write that a sweep decides on. -/
def Entry.written (entry : Entry) : Option (SkillStatus × Option Lifecycle) → Entry
  | none => entry
  | some (status, _) => { entry with status := some status }

theorem written_version (entry : Entry) (change : Option (SkillStatus × Option Lifecycle)) :
    (entry.written change).version = entry.version := by
  cases change <;> rfl

theorem sweep_cons (change : SkillRef → Entry → Option (SkillStatus × Option Lifecycle))
    (row : SkillRef × Entry) (rows : List (SkillRef × Entry)) (lib : Library) :
    sweep change (row :: rows) lib = (sweep change [row] lib >>= sweep change rows) := by
  rw [sweep, sweep, List.foldlM_cons, List.foldlM_cons]
  simp only [List.foldlM_nil, bind_pure]
  rfl

theorem sweep_singleton (change : SkillRef → Entry → Option (SkillStatus × Option Lifecycle))
    (row : SkillRef × Entry) (lib : Library) :
    sweep change [row] lib = (change row.1 row.2).elim (.ok lib) fun c =>
      lib.writeStatus row.1 c.1 c.2 := by
  simp only [sweep, List.foldlM_cons, List.foldlM_nil, bind_pure]
  cases change row.1 row.2 <;> rfl

/-- A sweep over rows whose statuses are the stored ones writes each of them by itself. -/
theorem sweep_spec {change : SkillRef → Entry → Option (SkillStatus × Option Lifecycle)}
    {rows : List (SkillRef × Entry)} {lib : Library} (hnodup : (rows.map Prod.fst).Nodup)
    (hrows : ∀ row ∈ rows, ∃ entry, lib.get? row.1 = some entry ∧ entry.status = row.2.status)
    (hwritable : ∀ row ∈ rows, ∀ status expected, change row.1 row.2 = some (status, expected) →
      Writable row.2 status expected) :
    ∃ lib', sweep change rows lib = .ok lib' ∧
      (∀ row ∈ rows, lib'.get? row.1 =
        (lib.get? row.1).map fun entry => entry.written (change row.1 row.2)) ∧
      ∀ ref, ref ∉ rows.map Prod.fst → lib'.get? ref = lib.get? ref := by
  induction rows generalizing lib with
  | nil => exact ⟨lib, rfl, fun row hrow => (by cases hrow), fun _ _ => rfl⟩
  | cons row rows ih =>
    obtain ⟨hnew, hnodup'⟩ := List.nodup_cons.mp hnodup
    -- The head is written, and the statuses of the rest are as before.
    have hhead : ∃ mid, sweep change [row] lib = .ok mid ∧
        ∀ r, mid.get? r = (lib.get? r).map fun entry =>
          if r = row.1 then entry.written (change row.1 row.2) else entry := by
      obtain ⟨entry, hentry, hstatus⟩ := hrows row (List.mem_cons_self ..)
      cases hchange : change row.1 row.2 with
      | none =>
        refine ⟨lib, by rw [sweep_singleton, hchange, Option.elim_none], fun r => ?_⟩
        simp only [Entry.written, ite_self, Option.map_id']
      | some pair =>
        obtain ⟨status, expected⟩ := pair
        have hw := hwritable row (List.mem_cons_self ..) status expected hchange
        have hw' : Writable entry status expected :=
          ⟨hstatus ▸ hw.expected, fun hto => hstatus ▸ hw.approved hto⟩
        obtain ⟨mid, hmid, hentries⟩ := writeStatus_of_writable hentry hw'
        refine ⟨mid, by rw [sweep_singleton, hchange]; exact hmid, fun r => ?_⟩
        have hget := get?_putStatus lib row.1 status r
        simp only [Library.get?, ← hentries] at hget
        exact hget
    obtain ⟨mid, hmid, hget⟩ := hhead
    have hsame (r : SkillRef) (hr : r ≠ row.1) : mid.get? r = lib.get? r := by
      rw [hget r]
      simp only [if_neg hr, Option.map_id']
    have hne : ∀ other ∈ rows, other.1 ≠ row.1 := fun other hother heq =>
      hnew (heq ▸ List.mem_map_of_mem hother)
    obtain ⟨lib', hlib', hwritten, hframe⟩ := @ih mid hnodup'
      (fun other hother => by
        rw [hsame other.1 (hne other hother)]
        exact hrows other (List.mem_cons_of_mem _ hother))
      (fun other hother => hwritable other (List.mem_cons_of_mem _ hother))
    refine ⟨lib', ?_, fun other hother => ?_, fun r hr => ?_⟩
    · rw [sweep_cons]
      exact bind_eq_ok.mpr ⟨mid, hmid, hlib'⟩
    · rcases List.mem_cons.mp hother with rfl | hother
      · rw [hframe other.1 hnew, hget other.1]
        simp only [if_true]
      · rw [hwritten other hother, hsame other.1 (hne other hother)]
    · rw [List.map_cons, List.mem_cons, not_or] at hr
      rw [hframe r hr.2, hsame r hr.1]

/-- A sweep over everything that is loaded. -/
theorem sweep_loaded {change : SkillRef → Entry → Option (SkillStatus × Option Lifecycle)}
    {lib : Library} (hwritable : ∀ ref entry, lib.get? ref = some entry → ∀ status expected,
      change ref entry = some (status, expected) → Writable entry status expected) :
    ∃ lib', sweep change lib.iterLoaded lib = .ok lib' ∧
      ∀ ref, lib'.get? ref = (lib.get? ref).map fun entry => entry.written (change ref entry) := by
  obtain ⟨lib', hlib', hwritten, hframe⟩ := @sweep_spec change _ lib (nodup_iterLoaded lib)
    (fun row hrow => ⟨row.2, mem_iterLoaded.mp hrow, rfl⟩)
    (fun row hrow => hwritable row.1 row.2 (mem_iterLoaded.mp hrow))
  refine ⟨lib', hlib', fun ref => ?_⟩
  cases hentry : lib.get? ref with
  | none =>
    rw [hframe ref, hentry, Option.map_none]
    intro hmem
    obtain ⟨row, hrow, rfl⟩ := List.mem_map.mp hmem
    rw [mem_iterLoaded.mp hrow] at hentry
    cases hentry
  | some entry =>
    rw [hwritten (ref, entry) (mem_iterLoaded.mpr hentry), hentry]
    rfl

/-- The lifecycle of a version that has a status, and whether it is active. -/
def Entry.standing (entry : Entry) : Option (Lifecycle × Bool) :=
  entry.status.map fun status => (status.lifecycle, status.active)

theorem standing_eq_some {entry : Entry} {lifecycle : Lifecycle} {active : Bool} :
    entry.standing = some (lifecycle, active) ↔
      ∃ status, entry.status = some status ∧ status.lifecycle = lifecycle ∧
        status.active = active := by
  simp only [Entry.standing, Option.map_eq_some_iff, Prod.mk.injEq]

def SkillStatus.live (status : SkillStatus) : Bool :=
  status.lifecycle = .approved && status.active

/-- Whether a version is approved and active. -/
def Entry.live (entry : Entry) : Bool := entry.status.any SkillStatus.live

theorem live_of_standing {entry : Entry} :
    entry.live = true ↔ entry.standing = some (.approved, true) := by
  rw [standing_eq_some, Entry.live, Option.any_eq_true]
  simp only [SkillStatus.live, Bool.and_eq_true, decide_eq_true_eq]

/-- Every version stays, and those that `dest` names leave the active set for another lifecycle. -/
def Moves (dest : SkillRef → Entry → Option Lifecycle) (lib lib' : Library) : Prop :=
  ∀ ref, (lib'.get? ref).map (fun e => (e.version, e.standing)) =
    (lib.get? ref).map fun e =>
      (e.version, ((dest ref e).map fun lifecycle => (lifecycle, false)).or e.standing)

theorem Moves.of_entries {dest : SkillRef → Entry → Option Lifecycle} {lib mid lib' : Library}
    (h : Moves dest lib mid) (hentries : lib'.entries = mid.entries) : Moves dest lib lib' := by
  intro ref
  have hget : lib'.get? ref = mid.get? ref := by rw [Library.get?, hentries, Library.get?]
  rw [hget]
  exact h ref

theorem Moves.after {dest : SkillRef → Entry → Option Lifecycle} {lib lib' : Library}
    (h : Moves dest lib lib') {ref : SkillRef} {entry : Entry} (hentry : lib.get? ref = some entry) :
    ∃ entry', lib'.get? ref = some entry' ∧ entry'.version = entry.version ∧
      entry'.standing =
        ((dest ref entry).map fun lifecycle => (lifecycle, false)).or entry.standing := by
  have hmap := h ref
  rw [hentry, Option.map_some] at hmap
  obtain ⟨entry', hentry', heq⟩ := Option.map_eq_some_iff.mp hmap
  obtain ⟨hversion, hstanding⟩ := Prod.mk.inj heq
  exact ⟨entry', hentry', hversion, hstanding⟩

theorem Moves.before {dest : SkillRef → Entry → Option Lifecycle} {lib lib' : Library}
    (h : Moves dest lib lib') {ref : SkillRef} {entry' : Entry}
    (hentry' : lib'.get? ref = some entry') :
    ∃ entry, lib.get? ref = some entry ∧ entry'.version = entry.version ∧
      entry'.standing =
        ((dest ref entry).map fun lifecycle => (lifecycle, false)).or entry.standing := by
  have hmap := h ref
  rw [hentry', Option.map_some] at hmap
  obtain ⟨entry, hentry, heq⟩ := Option.map_eq_some_iff.mp hmap.symm
  obtain ⟨hversion, hstanding⟩ := Prod.mk.inj heq.symm
  exact ⟨entry, hentry, hversion, hstanding⟩

/-- What is live behind a move was live before, and was not moved. -/
theorem Moves.live_before {dest : SkillRef → Entry → Option Lifecycle} {lib lib' : Library}
    (h : Moves dest lib lib') {ref : SkillRef} {entry' : Entry}
    (hentry' : lib'.get? ref = some entry') (hlive : entry'.live = true) :
    ∃ entry, lib.get? ref = some entry ∧ entry'.version = entry.version ∧ entry.live = true ∧
      dest ref entry = none := by
  obtain ⟨entry, hentry, hversion, hstanding⟩ := h.before hentry'
  rw [live_of_standing.mp hlive] at hstanding
  cases hdest : dest ref entry with
  | none =>
    rw [hdest, Option.map_none, Option.none_or] at hstanding
    exact ⟨entry, hentry, hversion, live_of_standing.mpr hstanding.symm, hdest⟩
  | some lifecycle =>
    rw [hdest, Option.map_some, Option.some_or] at hstanding
    cases hstanding

theorem Moves.live_after {dest : SkillRef → Entry → Option Lifecycle} {lib lib' : Library}
    (h : Moves dest lib lib') {ref : SkillRef} {entry : Entry} (hentry : lib.get? ref = some entry)
    (hlive : entry.live = true) (hdest : dest ref entry = none) :
    ∃ entry', lib'.get? ref = some entry' ∧ entry'.live = true := by
  obtain ⟨entry', hentry', -, hstanding⟩ := h.after hentry
  rw [hdest, Option.map_none, Option.none_or] at hstanding
  exact ⟨entry', hentry', live_of_standing.mpr (hstanding.trans (live_of_standing.mp hlive))⟩

theorem Moves.congr {dest dest' : SkillRef → Entry → Option Lifecycle} {lib lib' : Library}
    (h : Moves dest lib lib')
    (heq : ∀ ref entry, lib.get? ref = some entry → dest ref entry = dest' ref entry) :
    Moves dest' lib lib' := by
  intro ref
  rw [h ref]
  apply Option.map_congr
  intro entry hentry
  rw [heq ref entry hentry]

theorem moves_refl (lib : Library) : Moves (fun _ _ => none) lib lib := fun _ => rfl

/-- Two moves after each other, the second of which reads only the version. -/
theorem Moves.trans {dest : SkillRef → Entry → Option Lifecycle} {lib mid lib' : Library}
    (h : Moves dest lib mid) (next : SkillRef → SkillVersion → Option Lifecycle)
    (hnext : Moves (fun ref entry => next ref entry.version) mid lib') :
    Moves (fun ref entry => (next ref entry.version).or (dest ref entry)) lib lib' := by
  intro ref
  cases hentry : lib.get? ref with
  | none =>
    have hmid : mid.get? ref = none := by
      have hmap := h ref
      rw [hentry] at hmap
      exact Option.map_eq_none_iff.mp hmap
    rw [hnext ref, hmid]
    rfl
  | some entry =>
    obtain ⟨entry', hentry', hversion, hstanding⟩ := h.after hentry
    have hmap := hnext ref
    simp only [hentry', Option.map_some, hversion, hstanding] at hmap
    rw [hmap, Option.map_some]
    cases hnone : next ref entry.version with
    | none => simp only [hnone, Option.map_none, Option.none_or]
    | some lifecycle => simp only [hnone, Option.map_some, Option.some_or]

/-- A write of a status outside the active set. -/
theorem writeStatus_moves {lib lib' : Library} {ref : SkillRef} {status : SkillStatus}
    {expected : Option Lifecycle} {lifecycle : Lifecycle}
    (h : lib.writeStatus ref status expected = .ok lib') (hactive : status.active = false)
    (hto : status.lifecycle = lifecycle) :
    Moves (fun r _ => if r = ref then some lifecycle else none) lib lib' := by
  obtain ⟨entry, -, -, hentries⟩ := writeStatus_eq_ok h
  apply Moves.of_entries _ hentries
  intro r
  rw [get?_putStatus, Option.map_map]
  congr 1
  funext e
  simp only [Function.comp_apply]
  split
  · simp only [Entry.standing, Option.map_some, Option.some_or, hactive, hto]
  · rfl

theorem Moves.putStats {dest : SkillRef → Entry → Option Lifecycle} {lib mid : Library}
    (h : Moves dest lib mid) (ref : SkillRef) (stats : SkillStats) :
    Moves dest lib (mid.putStats ref stats) := by
  intro r
  rw [← h r, get?_putStats, Option.map_map]
  congr 1
  funext e
  simp only [Function.comp_apply]
  split <;> rfl

/-- A pass that moves the versions under `p`. -/
theorem sweep_moves (p : SkillRef → Entry → Prop) [∀ ref entry, Decidable (p ref entry)]
    (lifecycle : Lifecycle) (expected : Entry → Option Lifecycle) (lib : Library)
    (hto : lifecycle ≠ .approved)
    (hexpected : ∀ ref entry, p ref entry → expected entry = none ∨
      entry.status.map SkillStatus.lifecycle = expected entry) :
    ∃ lib', sweep (fun ref entry => if p ref entry then
        some (entry.loaded.moved lifecycle, expected entry) else none) lib.iterLoaded lib
          = .ok lib' ∧
      Moves (fun ref entry => if p ref entry then some lifecycle else none) lib lib' := by
  obtain ⟨lib', hlib', hget⟩ := @sweep_loaded
    (fun ref entry => if p ref entry then
      some (entry.loaded.moved lifecycle, expected entry) else none) lib
    (fun ref entry _ status exp hchange => by
      split at hchange
      · rename_i hp
        cases hchange
        exact ⟨hexpected ref entry hp, fun h => absurd h hto⟩
      · cases hchange)
  refine ⟨lib', hlib', fun ref => ?_⟩
  rw [hget ref, Option.map_map]
  congr 1
  funext entry
  simp only [Function.comp_apply]
  split
  · simp only [Entry.written, Entry.standing, Option.map_some, Option.some_or]
    rfl
  · simp only [Entry.written, Option.map_none, Option.none_or]

theorem lifecycle_of_loaded {entry : Entry} (h : entry.loaded.lifecycle ≠ .draft) :
    entry.status.map SkillStatus.lifecycle = some entry.loaded.lifecycle := by
  unfold Entry.loaded at h ⊢
  cases hstatus : entry.status with
  | none =>
    rw [hstatus] at h
    exact absurd rfl h
  | some status => rfl

@[simp] theorem moved_lifecycle (status : SkillStatus) (lifecycle : Lifecycle) :
    (status.moved lifecycle).lifecycle = lifecycle := rfl

@[simp] theorem moved_active (status : SkillStatus) (lifecycle : Lifecycle) :
    (status.moved lifecycle).active = false := rfl

/-- The quarantine takes the child and the versions that pin it, whatever they are. -/
theorem quarantineChild_moves {child : SkillRef} {lib : Library} {status : SkillStatus}
    (h : lib.getStatus child = .ok status) :
    ∃ lib', quarantineChildBlocksParents child lib = .ok lib' ∧
      Moves (fun ref entry =>
        (if child ∈ entry.version.uses then some Lifecycle.needsRecert else none).or
          (if ref = child then some .quarantined else none)) lib lib' := by
  obtain ⟨entry, hentry, hstatus⟩ := getStatus_eq_ok.mp h
  have hw : Writable entry (status.moved .quarantined) none := writable_of_ne (by simp)
  obtain ⟨mid, hmid, -⟩ := writeStatus_of_writable hentry hw
  have hchild := writeStatus_moves hmid (moved_active ..) (moved_lifecycle ..)
  obtain ⟨lib', hlib', hparents⟩ := sweep_moves (fun _ entry => child ∈ entry.version.uses)
    .needsRecert (fun _ => none) mid (by decide) (fun _ _ _ => Or.inl rfl)
  refine ⟨lib', ?_, ?_⟩
  · unfold quarantineChildBlocksParents
    simp only [List.contains_iff_mem]
    exact bind_eq_ok.mpr ⟨status, h, bind_eq_ok.mpr ⟨mid, hmid, hlib'⟩⟩
  · exact hchild.trans
      (fun _ version => if child ∈ version.uses then some .needsRecert else none) hparents

theorem markParents_moves (child : SkillRef) (lib : Library) :
    ∃ lib', markParentsNeedsRecert child lib = .ok lib' ∧
      Moves (fun _ entry => if child ∈ entry.version.uses ∧
        (entry.loaded.lifecycle = .approved ∨ entry.loaded.lifecycle = .shadow) then
          some .needsRecert else none) lib lib' := by
  have h := sweep_moves (fun _ entry => child ∈ entry.version.uses ∧
    (entry.loaded.lifecycle = .approved ∨ entry.loaded.lifecycle = .shadow)) .needsRecert
    (fun entry => some entry.loaded.lifecycle) lib (by decide) (fun _ entry hp => by
      right
      apply lifecycle_of_loaded
      rcases hp.2 with heq | heq <;> rw [heq] <;> decide)
  simpa only [markParentsNeedsRecert, List.contains_iff_mem] using h

theorem recertifyFieldFailures_moves (config : AutonomyConfig) (streaks : SkillRef → ℕ)
    (lib : Library) :
    ∃ lib', recertifyFieldFailures config streaks lib = .ok lib' ∧
      Moves (fun ref entry => if (entry.loaded.lifecycle = .approved ∨
          entry.loaded.lifecycle = .shadow ∨ entry.loaded.lifecycle = .needsRecert) ∧
          config.quarantineConsecutiveFailures ≤ streaks ref then
        some .quarantined else none) lib lib' :=
  sweep_moves _ .quarantined (fun entry => some entry.loaded.lifecycle) lib (by decide)
    fun _ entry hp => by
      right
      apply lifecycle_of_loaded
      rcases hp.1 with heq | heq | heq <;> rw [heq] <;> decide

theorem recertifyStale_moves (toolUpgraded : Option String) (lib : Library) :
    ∃ lib', recertifyStale toolUpgraded lib = .ok lib' ∧
      Moves (fun _ entry => if isStale toolUpgraded entry.loaded = true then some .needsRecert
        else none) lib lib' :=
  sweep_moves _ .needsRecert (fun _ => none) lib (by decide) fun _ _ _ => Or.inl rfl

/-- A write of a version's own lifecycle against itself. -/
theorem writeStatus_own {lib : Library} {ref : SkillRef} {status : SkillStatus}
    (h : lib.getStatus ref = .ok status) (status' : SkillStatus) (lifecycle : Lifecycle)
    (hactive : status'.active = false) (hto : status'.lifecycle = lifecycle)
    (hne : lifecycle ≠ .approved) :
    ∃ lib', lib.writeStatus ref status' (some status.lifecycle) = .ok lib' ∧
      Moves (fun r _ => if r = ref then some lifecycle else none) lib lib' := by
  obtain ⟨entry, hentry, hstatus⟩ := getStatus_eq_ok.mp h
  obtain ⟨lib', hlib', -⟩ := writeStatus_of_writable hentry (writable_expected hstatus (hto ▸ hne))
  exact ⟨lib', hlib', writeStatus_moves hlib' hactive hto⟩

theorem quarantineOnFailures_moves (config : AutonomyConfig) {ref : SkillRef} (failures : ℕ)
    {lib : Library} {status : SkillStatus} (h : lib.getStatus ref = .ok status) :
    ∃ lib', quarantineOnFailures config ref failures lib = .ok lib' ∧
      Moves (fun r _ => if r = ref ∧ config.quarantineConsecutiveFailures ≤ failures then
        some .quarantined else none) lib lib' := by
  by_cases hfew : failures < config.quarantineConsecutiveFailures
  · refine ⟨lib, ?_, ?_⟩
    · exact bind_eq_ok.mpr ⟨status, h, by rw [if_pos hfew]; rfl⟩
    · have hnot : ¬ config.quarantineConsecutiveFailures ≤ failures := Nat.not_le.mpr hfew
      simp only [hnot, and_false, if_false]
      exact moves_refl lib
  · obtain ⟨lib', hlib', hmoves⟩ := writeStatus_own h (status.moved .quarantined)
      .quarantined rfl rfl (by decide)
    refine ⟨lib', ?_, ?_⟩
    · exact bind_eq_ok.mpr ⟨status, h, by rw [if_neg hfew]; exact hlib'⟩
    · have hmany : config.quarantineConsecutiveFailures ≤ failures := Nat.not_lt.mp hfew
      simp only [hmany, and_true]
      exact hmoves

/-- A benching is for a version that the evidence retires. -/
def retires (config : AutonomyConfig) (evidence : Evidence) (ref : SkillRef) : Bool :=
  retirementDecision (evidence.samples ref).1.trials (contributionOf evidence ref).estimate
    (contributionOf evidence ref).intervalHigh config.evidenceFloor config.retirementThreshold
      = .retire

/-- It is moved to `benched`, and behind it its parents are marked. -/
theorem maybeBench_moves {config : AutonomyConfig} {evidence : Evidence} {ref : SkillRef}
    {lib : Library} {status : SkillStatus} (h : lib.getStatus ref = .ok status)
    (hretires : retires config evidence ref = true) :
    ∃ mid lib', maybeBenchOnContribution config evidence ref lib = .ok lib' ∧
      Moves (fun r _ => if r = ref then some .benched else none) lib mid ∧
      Moves (fun _ entry => if ref ∈ entry.version.uses ∧
        (entry.loaded.lifecycle = .approved ∨ entry.loaded.lifecycle = .shadow) then
          some .needsRecert else none) mid lib' := by
  have hdecision := of_decide_eq_true hretires
  let benched : SkillStatus := { status.moved .benched with
    retirement := { benchedAt := some evidence.now, reason := some "negative_contribution"
                    evidence := (contributionOf evidence ref).intervalHigh } }
  obtain ⟨mid, hmid, hmoves⟩ := writeStatus_own h benched .benched rfl rfl (by decide)
  let stats : SkillStats := { (lib.get? ref).elim {} Entry.loadedStats with
    contribution := contributionOf evidence ref }
  obtain ⟨lib', hlib', hparents⟩ := markParents_moves ref (mid.putStats ref stats)
  refine ⟨mid.putStats ref stats, lib', ?_, hmoves.putStats ref stats, hparents⟩
  apply bind_eq_ok.mpr
  refine ⟨status, h, ?_⟩
  simp only [hdecision]
  exact bind_eq_ok.mpr ⟨mid, hmid, hlib'⟩

theorem maybeBench_eq_ok {config : AutonomyConfig} {evidence : Evidence} {ref : SkillRef}
    {lib lib' : Library} (h : maybeBenchOnContribution config evidence ref lib = .ok lib') :
    (∃ status, lib.getStatus ref = .ok status) ∧ retires config evidence ref = true := by
  obtain ⟨status, hstatus, h⟩ := bind_eq_ok.mp h
  refine ⟨⟨status, hstatus⟩, decide_eq_true ?_⟩
  dsimp only at h
  split at h
  · cases h
  · assumption
  · cases h

theorem restoreBenched_moves {now : Int} {ref : SkillRef} {lib lib' : Library}
    (h : restoreBenched now ref lib = .ok lib') :
    (∃ status, lib.getStatus ref = .ok status ∧ status.lifecycle = .benched) ∧
      Moves (fun r _ => if r = ref then some .candidate else none) lib lib' := by
  obtain ⟨status, hstatus, h⟩ := bind_eq_ok.mp h
  obtain ⟨hbenched, h⟩ := unless_eq_ok.mp h
  exact ⟨⟨status, hstatus, not_not.mp hbenched⟩, writeStatus_moves h rfl rfl⟩

theorem enterShadow_moves {ref : SkillRef} {lib lib' : Library}
    (h : enterShadow ref lib = .ok lib') :
    (∃ status, lib.getStatus ref = .ok status ∧ status.lifecycle ≠ .quarantined ∧
      status.lifecycle ≠ .deprecated) ∧
      Moves (fun r _ => if r = ref then some .shadow else none) lib lib' := by
  obtain ⟨status, hstatus, h⟩ := bind_eq_ok.mp h
  obtain ⟨hfrom, h⟩ := unless_eq_ok.mp h
  refine ⟨⟨status, hstatus, ?_, ?_⟩, writeStatus_moves h rfl rfl⟩
  · intro heq
    rw [heq] at hfrom
    exact hfrom (by decide)
  · intro heq
    rw [heq] at hfrom
    exact hfrom (by decide)

theorem maybeAdvance_moves {config : AutonomyConfig} {evidence : Evidence} {applicable : Bool}
    {ref : SkillRef} {lib lib' : Library}
    (h : maybeAdvanceShadowToCandidate config evidence applicable ref lib = .ok lib') :
    (∃ status, lib.getStatus ref = .ok status ∧ status.lifecycle = .shadow) ∧
      Moves (fun r _ => if r = ref then some .candidate else none) lib lib' := by
  obtain ⟨status, hstatus, h⟩ := bind_eq_ok.mp h
  obtain ⟨hshadow, h⟩ := unless_eq_ok.mp h
  obtain ⟨entry, -, h⟩ := bind_eq_ok.mp h
  obtain ⟨-, h⟩ := unless_eq_ok.mp h
  obtain ⟨-, h⟩ := unless_eq_ok.mp h
  obtain ⟨-, h⟩ := unless_eq_ok.mp h
  obtain ⟨-, h⟩ := unless_eq_ok.mp h
  obtain ⟨-, h⟩ := unless_eq_ok.mp h
  obtain ⟨mid, hmid, h⟩ := bind_eq_ok.mp h
  cases h
  refine ⟨⟨status, hstatus, not_not.mp hshadow⟩, ?_⟩
  exact (writeStatus_moves hmid rfl rfl).putStats ref _

/-- The part of a candidate write that comes behind the version. -/
theorem candidate_eq_ok {ref : SkillRef} {lib lib' : Library}
    (h : (do
      if ((lib.get? ref).bind Entry.status).any fun status =>
          status.lifecycle.protectedFromDemote then
        throw LibraryError.approvedLifecycle
      let lib ← lib.writeStatus ref { lifecycle := .candidate } none
      return lib.putStats ref {}) = Except.ok lib') :
    ((lib.get? ref).bind Entry.status).any
      (fun status => status.lifecycle.protectedFromDemote) = false ∧
    ∀ r, lib'.get? r = (lib.get? r).map fun e =>
      if r = ref then { e with status := some { lifecycle := .candidate }, stats := some {} }
      else e := by
  obtain ⟨hprotected, h⟩ := unless_eq_ok.mp h
  obtain ⟨after, hafter, h⟩ := bind_eq_ok.mp h
  cases h
  refine ⟨Bool.eq_false_iff.mpr hprotected, fun r => ?_⟩
  obtain ⟨entry, hentry, -, hentries⟩ := writeStatus_eq_ok hafter
  have hput := get?_putStatus lib ref { lifecycle := .candidate } r
  rw [get?_putStats, Library.get?, hentries]
  simp only [Library.get?] at hput ⊢
  rw [hput, Option.map_map]
  congr 1
  funext e
  simp only [Function.comp_apply]
  split <;> rfl

/-- A candidate write puts one candidate, whose version is the one that was there before. -/
theorem writeCandidate_eq_ok {ref : SkillRef} {version : SkillVersion} {lib lib' : Library}
    (h : lib.writeCandidate ref version = .ok lib') :
    (∀ entry status, lib.get? ref = some entry → entry.status = some status →
      status.lifecycle.protectedFromDemote = false) ∧
    ∀ r, lib'.get? r = if r = ref then
      some { version := ((lib.get? ref).map Entry.version).getD version
             status := some { lifecycle := .candidate }, stats := some {} } else lib.get? r := by
  unfold Library.writeCandidate at h
  cases hold : lib.get? ref with
  | none =>
    rw [hold] at h
    obtain ⟨mid, hmid, h⟩ := bind_eq_ok.mp h
    obtain ⟨-, hget⟩ := candidate_eq_ok h
    refine ⟨fun entry status hentry => (by cases hentry), fun r => ?_⟩
    unfold Library.writeVersion at hmid
    split at hmid
    · cases hmid
    · rename_i entries hinsert
      cases hmid
      have hnew := Table.get?_insert hinsert r
      rw [hget r]
      simp only [Library.get?] at hnew ⊢
      rw [hnew]
      split
      · rfl
      · rw [Option.map_id']
  | some old =>
    rw [hold] at h
    obtain ⟨mid, hmid, h⟩ := bind_eq_ok.mp h
    cases hmid
    obtain ⟨hprotected, hget⟩ := candidate_eq_ok h
    refine ⟨fun entry status hentry hstatus => ?_, fun r => ?_⟩
    · cases hentry
      rw [hold, Option.bind_some, hstatus, Option.any_some] at hprotected
      exact hprotected
    · rw [hget r]
      split
      · rename_i hr
        rw [hr, hold]
        rfl
      · rw [Option.map_id']

/-- The status that a promotion of an entry writes. -/
def approvedStatus (checks : Checks) (entry : Entry) : SkillStatus :=
  assignActiveOnApproval
    { lifecycle := .approved, certification := checks.certification
      activeRetrievable := approved_retrievable false } entry.version entry.loadedStats

theorem approvedStatus_lifecycle (checks : Checks) (entry : Entry) :
    (approvedStatus checks entry).lifecycle = .approved := rfl

/-- Every check of a promotion passes on the entry. -/
structure Checks.Pass (checks : Checks) (entry : Entry) : Prop where
  audit : checks.audit = true
  candidate : checks.lintCandidate entry.version entry.loadedStats = []
  applicable : checks.applicable = true
  golden : checks.goldenPassed = true
  approved : checks.lintApproved entry.version (approvedStatus checks entry) entry.loadedStats = []

theorem promoteToApproved_eq_ok {checks : Checks} {ref : SkillRef} {lib lib' : Library} :
    promoteToApproved checks ref lib = .ok lib' ↔
      ∃ entry status, lib.get? ref = some entry ∧ entry.status = some status ∧
        checks.Pass entry ∧ status.lifecycle.abortsPromotion = false ∧
        lib' = lib.putStatus ref (approvedStatus checks entry) := by
  unfold promoteToApproved
  constructor
  · intro h
    obtain ⟨haudit, h⟩ := unless_eq_ok.mp h
    obtain ⟨entry, hget, h⟩ := bind_eq_ok.mp h
    obtain ⟨status, hstatus, h⟩ := bind_eq_ok.mp h
    obtain ⟨hcandidate, h⟩ := unless_eq_ok.mp h
    obtain ⟨happlicable, h⟩ := unless_eq_ok.mp h
    obtain ⟨hgolden, h⟩ := unless_eq_ok.mp h
    obtain ⟨happroved, h⟩ := unless_eq_ok.mp h
    obtain ⟨haborts, h⟩ := unless_eq_ok.mp h
    have hentry := elim_eq_ok.mp hget
    obtain ⟨entry', hentry', hstatus'⟩ := getStatus_eq_ok.mp hstatus
    rw [hentry] at hentry'
    cases hentry'
    cases h
    refine ⟨entry, status, hentry, hstatus', ⟨?_, ?_, ?_, ?_, ?_⟩, ?_, rfl⟩
    · simpa using haudit
    · exact not_not.mp hcandidate
    · simpa using happlicable
    · simpa using hgolden
    · exact not_not.mp happroved
    · exact Bool.eq_false_iff.mpr haborts
  · rintro ⟨entry, status, hentry, hstatus, hpass, haborts, rfl⟩
    apply unless_eq_ok.mpr
    refine ⟨by simp [hpass.audit], ?_⟩
    apply bind_eq_ok.mpr
    refine ⟨entry, elim_eq_ok.mpr hentry, ?_⟩
    apply bind_eq_ok.mpr
    refine ⟨status, getStatus_eq_ok.mpr ⟨entry, hentry, hstatus⟩, ?_⟩
    apply unless_eq_ok.mpr
    refine ⟨not_not.mpr hpass.candidate, ?_⟩
    apply unless_eq_ok.mpr
    refine ⟨by simp [hpass.applicable], ?_⟩
    apply unless_eq_ok.mpr
    refine ⟨by simp [hpass.golden], ?_⟩
    apply unless_eq_ok.mpr
    refine ⟨not_not.mpr hpass.approved, ?_⟩
    apply unless_eq_ok.mpr
    exact ⟨Bool.eq_false_iff.mp haborts, rfl⟩

/-- Whether a revocation changes an entry. -/
def Entry.needsMark (entry : Entry) : Bool :=
  entry.status.any fun status => !status.lifecycle.revoked

def Library.markable (lib : Library) (ref : SkillRef) : Bool := (lib.get? ref).any Entry.needsMark

theorem markable_iff {lib : Library} {ref : SkillRef} :
    lib.markable ref = true ↔ ∃ entry status, lib.get? ref = some entry ∧
      entry.status = some status ∧ status.lifecycle.revoked = false := by
  simp only [Library.markable, Entry.needsMark, Option.any_eq_true, Bool.not_eq_true']
  constructor
  · rintro ⟨entry, hentry, status, hstatus, hrevoked⟩
    exact ⟨entry, status, hentry, hstatus, hrevoked⟩
  · rintro ⟨entry, status, hentry, hstatus, hrevoked⟩
    exact ⟨entry, hentry, status, hstatus, hrevoked⟩

/-- What is marked needs no mark again, and the rest is as before. -/
theorem Moves.markable_iff {marked : List SkillRef} {lib lib' : Library}
    (h : Moves (fun r _ => if r ∈ marked then some .needsRecert else none) lib lib')
    (ref : SkillRef) :
    lib'.markable ref = true ↔ lib.markable ref = true ∧ ref ∉ marked := by
  rw [Skill.markable_iff, Skill.markable_iff]
  constructor
  · rintro ⟨entry', status', hentry', hstatus', hrevoked⟩
    obtain ⟨entry, hentry, -, hstanding⟩ := h.before hentry'
    have hthis : entry'.standing = some (status'.lifecycle, status'.active) :=
      standing_eq_some.mpr ⟨status', hstatus', rfl, rfl⟩
    rw [hthis] at hstanding
    split at hstanding
    · simp only [Option.map_some, Option.some_or, Option.some.injEq, Prod.mk.injEq] at hstanding
      rw [hstanding.1] at hrevoked
      cases hrevoked
    · rename_i hnew
      rw [Option.map_none, Option.none_or] at hstanding
      obtain ⟨status, hstatus, hlifecycle, -⟩ := standing_eq_some.mp hstanding.symm
      exact ⟨⟨entry, status, hentry, hstatus, hlifecycle ▸ hrevoked⟩, hnew⟩
  · rintro ⟨⟨entry, status, hentry, hstatus, hrevoked⟩, hnew⟩
    obtain ⟨entry', hentry', -, hstanding⟩ := h.after hentry
    rw [if_neg hnew, Option.map_none, Option.none_or] at hstanding
    have hthis : entry.standing = some (status.lifecycle, status.active) :=
      standing_eq_some.mpr ⟨status, hstatus, rfl, rfl⟩
    obtain ⟨status', hstatus', hlifecycle, -⟩ := standing_eq_some.mp (hstanding.trans hthis)
    exact ⟨entry', status', hentry', hstatus', hlifecycle ▸ hrevoked⟩

theorem markNeedsRecert_eq_some {lib lib' : Library} {ref : SkillRef}
    (h : lib.markNeedsRecert ref = some lib') :
    lib.markable ref = true ∧ lib'.index = lib.index ∧ lib'.queue = lib.queue ∧
      Moves (fun r _ => if r = ref then some .needsRecert else none) lib lib' := by
  unfold Library.markNeedsRecert at h
  split at h
  · cases h
  · rename_i status hstatus
    obtain ⟨entry, hentry, hsome⟩ := getStatus_eq_ok.mp hstatus
    split at h
    · cases h
    · rename_i hrevoked
      cases hwrite : lib.writeStatus ref (status.moved .needsRecert) none with
      | error e =>
        rw [hwrite] at h
        cases h
      | ok after =>
        rw [hwrite] at h
        cases h
        obtain ⟨hindex, hqueue⟩ := writeStatus_frame hwrite (by simp)
        refine ⟨?_, hindex, hqueue, writeStatus_moves hwrite rfl rfl⟩
        exact markable_iff.mpr ⟨entry, status, hentry, hsome, Bool.eq_false_iff.mpr hrevoked⟩

theorem markNeedsRecert_isSome {lib : Library} {ref : SkillRef} (h : lib.markable ref = true) :
    ∃ lib', lib.markNeedsRecert ref = some lib' := by
  obtain ⟨entry, status, hentry, hstatus, hrevoked⟩ := markable_iff.mp h
  have hw : Writable entry (status.moved .needsRecert) none := writable_of_ne (by simp)
  obtain ⟨lib', hlib', -⟩ := writeStatus_of_writable hentry hw
  refine ⟨lib', ?_⟩
  rw [Library.markNeedsRecert, getStatus_eq_ok.mpr ⟨entry, hentry, hstatus⟩]
  simp only [hrevoked, hlib']
  rfl

section Drain
variable {P : Drain → Prop} (hmark : ∀ d ref, P d → P (d.mark ref))
include hmark

theorem markParents_preserves (parents : List SkillRef) {d : Drain} (hd : P d) :
    P (markParents parents d) := by
  induction parents generalizing d with
  | nil => exact hd
  | cons parent parents ih =>
    unfold markParents
    split
    · exact hd
    · exact ih (hmark d parent hd)

theorem drainTargets_preserves (parentsOf : SkillRef → List SkillRef) (targets : List SkillRef)
    {d : Drain} (hd : P d) : P (drainTargets parentsOf targets d).1 := by
  induction targets generalizing d with
  | nil => exact hd
  | cons target targets ih =>
    unfold drainTargets
    split
    · exact hd
    · exact ih (markParents_preserves hmark _ (hmark d target hd))

/-- What every mark keeps holds behind a drain. -/
theorem drainItems_preserves (index : LineageIndex) (parentsOf : SkillRef → List SkillRef)
    (items : List Revoke) {d : Drain} (hd : P d) : P (drainItems index parentsOf items d).1 := by
  induction items generalizing d with
  | nil => exact hd
  | cons item items ih =>
    unfold drainItems
    split
    · exact ih hd
    · exact ih (drainTargets_preserves hmark parentsOf _ hd)

end Drain

/-- A drain that started from `lib` has moved exactly what it has touched. -/
structure Drain.From (lib : Library) (d : Drain) : Prop where
  moves : Moves (fun r _ => if r ∈ d.touched then some .needsRecert else none) lib d.lib
  markable : ∀ ref ∈ d.touched, lib.markable ref = true
  index : d.lib.index = lib.index
  queue : d.lib.queue = lib.queue

theorem Drain.From.mark {lib : Library} {d : Drain} (hd : d.From lib) (ref : SkillRef) :
    (d.mark ref).From lib := by
  unfold Drain.mark
  split
  · exact hd
  · rename_i lib' hlib'
    obtain ⟨hmarkable, hindex, hqueue, hmoves⟩ := markNeedsRecert_eq_some hlib'
    have hbefore := ((hd.moves.markable_iff ref).mp hmarkable).1
    refine ⟨?_, fun r hr => ?_, hindex.trans hd.index, hqueue.trans hd.queue⟩
    · have hboth := hd.moves.trans
        (fun r _ => if r = ref then some .needsRecert else none) hmoves
      apply hboth.congr
      intro r _ _
      simp only [List.mem_append, List.mem_singleton]
      by_cases hr : r = ref
      · simp only [hr, or_true, if_true, Option.some_or]
      · simp only [hr, or_false, if_false, Option.none_or]
    · rcases List.mem_append.mp hr with hr | hr
      · exact hd.markable r hr
      · rw [List.mem_singleton.mp hr]
        exact hbefore

theorem drainRevokes_moves (maxWrites : ℕ) (lib : Library) :
    Moves (fun r _ => if r ∈ (drainRevokes maxWrites lib).2 then some .needsRecert else none) lib
      (drainRevokes maxWrites lib).1 ∧
    ∀ ref ∈ (drainRevokes maxWrites lib).2, lib.markable ref = true := by
  let start : Drain :=
    { lib := { lib with queue := lib.queue.drop maxWrites }, remaining := maxWrites }
  have hstart : start.From start.lib :=
    ⟨(moves_refl start.lib).congr fun _ _ _ => rfl, fun r hr => (by cases hr), rfl, rfl⟩
  have hend : Drain.From start.lib _ :=
    drainItems_preserves (fun d ref (hd : d.From start.lib) => hd.mark ref) lib.index lib.parentsOf
      (lib.queue.take maxWrites) hstart
  exact ⟨hend.moves.of_entries rfl, hend.markable⟩

/-- The library behind an operation. -/
def LibraryOp.after (config : AutonomyConfig) (op : LibraryOp) (lib : Library) : Library :=
  (op.apply config lib).toOption.getD lib

theorem after_of_ok {config : AutonomyConfig} {lib lib' : Library} (op : LibraryOp)
    (h : op.apply config lib = .ok lib') : op.after config lib = lib' := by
  rw [LibraryOp.after, h]
  rfl

theorem after_of_error {config : AutonomyConfig} {lib : Library} {e : LibraryError}
    (op : LibraryOp) (h : op.apply config lib = .error e) : op.after config lib = lib := by
  rw [LibraryOp.after, h]
  rfl

/-- A property of the library behind an operation, by its outcome. -/
theorem after_of_outcomes {config : AutonomyConfig} {op : LibraryOp} {lib : Library}
    {P : Library → Prop} (hstay : P lib)
    (hok : ∀ lib', op.apply config lib = .ok lib' → P lib') : P (op.after config lib) := by
  cases h : op.apply config lib with
  | error e =>
    rw [after_of_error op h]
    exact hstay
  | ok lib' =>
    rw [after_of_ok op h]
    exact hok lib' h

theorem step_eq_some {config : AutonomyConfig} {op : LibraryOp} {lib lib' : Library} :
    (system config).step lib op = some lib' ↔ op.after config lib = lib' :=
  ⟨Option.some.inj, congrArg some⟩

end Recertia.Skill
