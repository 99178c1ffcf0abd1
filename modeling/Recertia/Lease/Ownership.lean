import Recertia.Lease.RunLease

/-! Who owns the row across an interleaving, and what a stale holder can still do
to it. -/
namespace Recertia.Lease
open Transition

def LeaseRow.ownership (r : LeaseRow) : Nat × Nat × LeaseStatus :=
  (r.fencingToken, r.incarnation, r.status)

/-- The lease object's token is not the row's `fencing_token`. -/
def Stale (w : World) (i : LeaseId) : Prop :=
  ∀ r, w.row = some r → (w.lease i).token ≠ some r.fencingToken

/-- A heartbeat or release by a stale lease leaves the row's token, incarnation and
status alone. -/
def StaleLeavesRow (w : World) (l : Label) (w' : World) : Prop :=
  match l with
  | .heartbeat i _ | .release i =>
    Stale w i → w'.row.map LeaseRow.ownership = w.row.map LeaseRow.ownership
  | _ => True

/-- Lease `i` acquired `t` and the row still carries it, held. -/
def Holds (w : World) (i : LeaseId) (t : Nat) : Prop :=
  (w.lease i).token = some t ∧ ∃ r, w.row = some r ∧ r.fencingToken = t ∧ r.status = .held

/-- The step is not `i`'s own release and issues no newer token. -/
def Keeps (i : LeaseId) (w : World) (l : Label) (w' : World) : Prop :=
  l ≠ .release i ∧ w'.row.map (·.fencingToken) = w.row.map (·.fencingToken)

/-- The holder's writes pass the fence for as long as it neither releases nor is
superseded, at every point of the run. -/
def HolderAccepted (w : World) (ls : List Label) : Prop :=
  ∀ pre mid u v i t, pre ++ mid <+: ls → system.run w pre = some u → system.run u mid = some v →
    Holds u i t → system.Along (Keeps i) u mid →
    requireLeaseToken (some v.row) (some t) .reject = .ok ()

def OwnershipSurvives (w : World) (ls : List Label) : Prop :=
  system.Along StaleLeavesRow w ls ∧ HolderAccepted w ls

/-- A release by a stale lease finds no row, or one that is already released. -/
def StaleReleaseHarmless (w : World) (l : Label) (_ : World) : Prop :=
  match l with
  | .release i => Stale w i → ∀ r, w.row = some r → r.status = .released
  | _ => True

theorem stale_leaves_row_iff {w w' : World} {l : Label} (h : step w l = some w') :
    StaleLeavesRow w l w' ↔ StaleReleaseHarmless w l w' := by
  cases l with
  | heartbeat i ok =>
    refine iff_of_true (fun hstale => ?_) trivial
    rcases step_row h with hr | ⟨_, _, _, hl, -⟩ | ⟨j, _, r, hl, hrow, htok, -⟩ | ⟨_, hl, -⟩
    · rw [hr]
    · cases hl
    · cases hl
      exact absurd htok (hstale r hrow)
    · cases hl
  | release i =>
    simp only [step, Option.ite_none_right_eq_some, Option.some.injEq] at h
    obtain ⟨-, rfl⟩ := h
    simp only [StaleLeavesRow, StaleReleaseHarmless, release_row]
    refine imp_congr_right fun _ => ?_
    cases w.row with
    | none => simp
    | some r =>
      simp only [Option.map_some, LeaseRow.ownership, Option.some.injEq, Prod.mk.injEq, true_and]
      exact ⟨fun hs r' hr => by cases hr; exact hs.symm, fun hs => (hs r rfl).symm⟩
  | _ => exact Iff.rfl

/-- The tokens of the lease objects are at most the row's and no two objects share one. -/
structure TokensDistinct (w : World) : Prop where
  le_row : ∀ i t, (w.lease i).Claims t → ∃ r, w.row = some r ∧ t ≤ r.fencingToken
  inj : ∀ i j t, (w.lease i).Claims t → (w.lease j).Claims t → i = j

theorem tokens_distinct_init (c : Config) : TokensDistinct c.world where
  le_row i t h := by rcases h with h | ⟨_, _, _, h⟩ <;> cases h
  inj i j t h := by rcases h with h | ⟨_, _, _, h⟩ <;> cases h

theorem step_row_token_le {w w' : World} {l : Label} {r : LeaseRow}
    (h : step w l = some w') (hr : w.row = some r) :
    ∃ r', w'.row = some r' ∧ r.fencingToken ≤ r'.fencingToken := by
  rcases step_row h with h' | ⟨_, _, r', -, h', -, hlt⟩ | ⟨_, _, r', -, hr', -, h'⟩ | ⟨_, -, h'⟩
  · exact ⟨r, h'.trans hr, Nat.le_refl _⟩
  · exact ⟨r', h', Nat.le_of_lt (hlt r hr)⟩
  · rw [hr] at hr'
    cases hr'
    exact ⟨_, h', Nat.le_refl _⟩
  · rw [hr] at h'
    exact ⟨_, h', Nat.le_refl _⟩

theorem tokens_distinct_step {w w' : World} {l : Label} (hi : TokensDistinct w)
    (h : step w l = some w') : TokensDistinct w' where
  le_row i t hc := by
    rcases step_claims h hc with hc | ⟨_, r, -, hr, rfl, -⟩
    · obtain ⟨r, hr, hle⟩ := hi.le_row i t hc
      obtain ⟨r', hr', hle'⟩ := step_row_token_le h hr
      exact ⟨r', hr', Nat.le_trans hle hle'⟩
    · exact ⟨r, hr, Nat.le_refl _⟩
  inj i j t hci hcj := by
    have hnew : ∀ k, (w.lease k).Claims t → ¬ ∀ r₀, w.row = some r₀ → r₀.fencingToken < t := by
      intro k hk hlt
      obtain ⟨r, hr, hle⟩ := hi.le_row k t hk
      exact absurd (hlt r hr) (Nat.not_lt.mpr hle)
    rcases step_claims h hci with hci | ⟨gi, ri, hli, -, -, hlt⟩
    · rcases step_claims h hcj with hcj | ⟨_, _, -, -, -, hlt⟩
      · exact hi.inj i j t hci hcj
      · exact absurd hlt (hnew i hci)
    · rcases step_claims h hcj with hcj | ⟨gj, rj, hlj, -⟩
      · exact absurd hlt (hnew j hcj)
      · rw [hli] at hlj
        cases hlj
        rfl

theorem tokens_distinct_run {c : Config} {w : World} {ls : List Label}
    (h : system.run c.world ls = some w) : TokensDistinct w :=
  System.run_invariant (fun _ _ _ => tokens_distinct_step) (tokens_distinct_init c) h

/-- The row is held under `t`, and no lease object but `i` claims `t`. -/
structure HeldFor (i : LeaseId) (t : Nat) (w : World) : Prop where
  only : ∀ j, (w.lease j).Claims t → j = i
  row : ∃ r, w.row = some r ∧ r.fencingToken = t ∧ r.status = .held

theorem held_for_of_holds {w : World} {i : LeaseId} {t : Nat} (hd : TokensDistinct w)
    (h : Holds w i t) : HeldFor i t w :=
  ⟨fun j hj => hd.inj j i t hj (Or.inl h.1), h.2⟩

/-- Among steps that keep `i` as the holder, a harmless release leaves the row held
for `i`: whoever else releases is stale. -/
theorem held_for_step {w w' : World} {l : Label} {i : LeaseId} {t : Nat} (hh : HeldFor i t w)
    (h : step w l = some w') (hk : Keeps i w l w') (hs : StaleReleaseHarmless w l w') :
    HeldFor i t w' := by
  obtain ⟨r, hr, rfl, hheld⟩ := hh.row
  constructor
  · intro j hj
    rcases step_claims h hj with hj | ⟨_, _, -, -, -, hlt⟩
    · exact hh.only j hj
    · exact absurd (hlt r hr) (Nat.lt_irrefl _)
  · rcases step_row h with h' | ⟨_, _, r', -, h', -, hlt⟩ | ⟨_, _, r', -, hr', -, h'⟩ | ⟨j, rfl, h'⟩
    · exact ⟨r, h'.trans hr, rfl, hheld⟩
    · have heq := hk.2
      rw [h', hr] at heq
      simp only [Option.map_some, Option.some.injEq] at heq
      exact absurd (hlt r hr) (by omega)
    · rw [hr] at hr'
      cases hr'
      exact ⟨_, h', rfl, hheld⟩
    · have hstale : Stale w j := by
        intro r' hr' hj
        rw [hr] at hr'
        cases hr'
        exact hk.1 (congrArg Label.release (hh.only j (Or.inl hj)))
      rw [hs hstale r hr] at hheld
      cases hheld

theorem holder_accepted {c : Config} {ls : List Label}
    (hs : system.Along StaleReleaseHarmless c.world ls) : HolderAccepted c.world ls := by
  rintro pre mid u v i t ⟨post, rfl⟩ hu hv hholds hkeeps
  have hmid : system.Along StaleReleaseHarmless u mid :=
    System.along_append (System.along_prefix hs) hu
  have hheld : HeldFor i t v :=
    System.run_invariant_along (fun _ _ _ hh h hg => held_for_step hh h hg.1 hg.2)
      (held_for_of_holds (tokens_distinct_run hu) hholds) (System.along_and hkeeps hmid) hv
  obtain ⟨r, hr, rfl, hr'⟩ := hheld.row
  rw [hr]
  exact require_lease_token_holder hr' .reject

/-- Ownership survives stale holders in exactly the runs in which no stale lease
releases a held row: `_mark_released` has no token in its `WHERE`. -/
theorem ownership_survives_iff (c : Config) (ls : List Label) :
    OwnershipSurvives c.world ls ↔ system.Along StaleReleaseHarmless c.world ls := by
  have hrow : system.Along StaleLeavesRow c.world ls ↔
      system.Along StaleReleaseHarmless c.world ls :=
    System.along_congr _ _ fun _ _ _ => stale_leaves_row_iff
  exact ⟨fun h => hrow.mp h.1, fun h => ⟨hrow.mpr h, holder_accepted h⟩⟩

/-- Two processes and one lock path; nobody has leased the run yet. -/
def twoProcesses : Config where
  win32 := false
  row := none
  path := fun _ => "locks/run.lock"
  process := fun i => i
  ttl := fun _ => 30
  inodeAt := fun _ => none
  payload := fun _ => none
  nextInode := 0
  wall := 0
  mono := 0

/-- `0` acquires, its lock file is removed and its heartbeat expires, and `1` steals
the row on the re-created file. -/
def steal : List Label :=
  [.acquireBegin 0, .acquireRecord 0 "a", .acquireFinish 0, .unlink "locks/run.lock", .tick 60 60,
    .acquireBegin 1, .acquireRecord 1 "b", .acquireFinish 1]

theorem steal_then_late_release :
    ¬ OwnershipSurvives twoProcesses.world (steal ++ [.release 0]) := by
  rintro ⟨h, -⟩
  obtain ⟨u, hu⟩ : ∃ u, system.run twoProcesses.world steal = some u := ⟨_, rfl⟩
  have hrow : (system.run twoProcesses.world steal).map (·.row) =
      some (some ⟨2, 2, 60, 60, some "b", .held⟩) := by decide
  have htok : (system.run twoProcesses.world steal).map (fun w => (w.lease 0).token) =
      some (some 1) := by decide
  have hready : (system.run twoProcesses.world steal).map (fun w => ready w 0) = some true := by
    decide
  simp only [hu, Option.map_some, Option.some.injEq] at hrow htok hready
  have hlast := (System.along_append h hu _ (if_pos hready)).1
  have hstale : Stale u 0 := fun r hr => by
    rw [hrow] at hr
    cases hr
    simp only [htok, ne_eq, Option.some.injEq]
    decide
  have hkeeps := hlast hstale
  simp only [release_row, hrow, Option.map_some, LeaseRow.ownership, Option.some.injEq,
    Prod.mk.injEq] at hkeeps
  exact absurd hkeeps.2.2 (by decide)

end Recertia.Lease
