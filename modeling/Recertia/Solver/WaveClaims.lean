import Mathlib.Data.List.Pairwise
import Recertia.Solver.WavesOnce

/-! The steps of a wave at the claim scheduler: packing compares the resources that steps declare,
with their modes; an acquire takes the claims of the tool as well, and waits for any holder. -/
namespace Recertia.Solver

open Claims Transition

/-- The claims that `invoke` acquires for a step: those of its tool, and those of the step. -/
def invokeClaims (toolClaims : String → List ResourceClaim) (step : Step) : List ResourceClaim :=
  toolClaims step.toolName ++ step.resources

/-- The moves while a wave runs: each of its steps asks for the claims of its invoke when it has
none, and releases them all. -/
def WaveMove (toolClaims : String → List ResourceClaim) (wave : List Step) (s : Scheduler) :
    SchedulerMove → Prop
  | .acquire id claims _ =>
    ∃ step ∈ wave, step.id = id ∧ claims = invokeClaims toolClaims step ∧ s.granted id = []
  | .wake id _ => ∃ step ∈ wave, step.id = id
  | .release id claims => ∃ step ∈ wave, step.id = id ∧ claims = invokeClaims toolClaims step

def TimesOutOn (s : Scheduler) (a b : StepId) : Prop :=
  ∃ claims, s.timedOut = some (a, claims) ∧ ∃ c ∈ claims, s.holders c.key = some b

/-- In no interleaving does a step of the wave wait for another one, or time out on it. -/
def NeverWaits (toolClaims : String → List ResourceClaim) (wave : List Step) : Prop :=
  ∀ moves s, scheduler.Along (fun s move _ => WaveMove toolClaims wave s move) .start moves →
    scheduler.run .start moves = some s → ∀ a ∈ wave, ∀ b ∈ wave, a.id ≠ b.id →
      ¬ s.WaitsFor a.id b.id ∧ ¬ TimesOutOn s a.id b.id

/-- No claim of the one step has the key of a claim of the other. -/
def KeysApart (toolClaims : String → List ResourceClaim) (a b : Step) : Prop :=
  ∀ c ∈ invokeClaims toolClaims a, ∀ d ∈ invokeClaims toolClaims b, c.key ≠ d.key

/-- What an acquire does, from where it stands. -/
theorem advance_spec (s : Scheduler) (step : StepId) (acquired remaining : List ResourceClaim)
    (expired : Bool) :
    (∀ key id, (s.advance step acquired remaining expired).holders key = some id →
      s.holders key = some id ∨ id = step ∧ ∃ c ∈ remaining, c.key = key) ∧
    (∀ id b, (s.advance step acquired remaining expired).waiting id = some b →
      s.waiting id = some b ∨ id = step ∧ b.acquired ++ b.claim :: b.rest = acquired ++ remaining) ∧
    (∀ id claims, (s.advance step acquired remaining expired).timedOut = some (id, claims) →
      id = step ∧ claims = acquired ++ remaining) := by
  obtain ⟨taken, hp⟩ := acquireFrom_progress step s.holders acquired remaining
  unfold Scheduler.advance
  generalize acquireFrom step s.holders acquired remaining = out at hp
  obtain ⟨holders, acquired', remaining'⟩ := out
  have hremaining : remaining = taken ++ remaining' := hp.remaining
  have hacquired : acquired' = acquired ++ taken := hp.acquired
  have hholders : ∀ key id, holders key = some id →
      s.holders key = some id ∨ id = step ∧ ∃ c ∈ remaining, c.key = key := by
    intro key id hkey
    by_cases hid : id = step
    · rw [hid] at hkey
      rcases (hp.own key).mp hkey with hold | ⟨c, hc, hckey⟩
      · exact Or.inl (hid ▸ hold)
      · rw [hremaining]
        exact Or.inr ⟨hid, c, List.mem_append_left _ hc, hckey⟩
    · exact Or.inl ((hp.others key id hid).mp hkey)
  have hall : ∀ rest, acquired' ++ (remaining' ++ rest) = acquired ++ (remaining ++ rest) := by
    intro rest
    rw [hacquired, hremaining]
    simp only [List.append_assoc]
  -- Only the entry of `step` in the waiting table changes.
  have hwaiting : ∀ v id b, setAt s.waiting step v id = some b →
      s.waiting id = some b ∨ id = step ∧ v = some b := by
    intro v id b hb
    by_cases hid : id = step
    · rw [hid, setAt_self] at hb
      exact Or.inr ⟨hid, hb⟩
    · rw [setAt_of_ne _ _ hid] at hb
      exact Or.inl hb
  dsimp only
  cases remaining' with
  | nil =>
    refine ⟨hholders, fun id b hb => ?_, fun id claims h => (by cases h)⟩
    rcases hwaiting _ id b hb with hold | ⟨-, hnew⟩
    · exact Or.inl hold
    · cases hnew
  | cons claim rest =>
    have hsame : acquired' ++ claim :: rest = acquired ++ remaining := by
      have h := hall []
      rw [List.append_nil, List.append_nil] at h
      exact h
    dsimp only
    by_cases hexpired : expired = true
    · rw [if_pos hexpired]
      refine ⟨fun key id hkey => ?_, fun id b hb => ?_, fun id claims h => ?_⟩
      · -- A timeout gives claims back, so the holders are among those before it.
        apply hholders key id
        by_cases hid : id = step
        · rw [hid] at hkey ⊢
          exact ((releaseUnlocked_own step acquired' holders key).mp hkey).1
        · exact (releaseUnlocked_others hid acquired' holders key).mp hkey
      · rcases hwaiting _ id b hb with hold | ⟨-, hnew⟩
        · exact Or.inl hold
        · cases hnew
      · cases h
        exact ⟨rfl, hsame⟩
    · rw [if_neg hexpired]
      refine ⟨hholders, fun id b hb => ?_, fun id claims h => (by cases h)⟩
      rcases hwaiting _ id b hb with hold | ⟨hid, hnew⟩
      · exact Or.inl hold
      · cases hnew
        exact Or.inr ⟨hid, hsame⟩

/-- What the scheduler knows of a step is within the claims of its invoke. -/
structure Within (toolClaims : String → List ResourceClaim) (wave : List Step) (s : Scheduler) :
    Prop where
  holders : ∀ key id, s.holders key = some id → ∃ step ∈ wave, step.id = id ∧
    ∃ c ∈ invokeClaims toolClaims step, c.key = key
  waiting : ∀ id b, s.waiting id = some b → ∃ step ∈ wave, step.id = id ∧
    ∀ c ∈ b.acquired ++ b.claim :: b.rest, c ∈ invokeClaims toolClaims step
  timedOut : ∀ id claims, s.timedOut = some (id, claims) → ∃ step ∈ wave, step.id = id ∧
    ∀ c ∈ claims, c ∈ invokeClaims toolClaims step

variable {toolClaims : String → List ResourceClaim} {wave : List Step} {s t : Scheduler}

theorem Within.advance (h : Within toolClaims wave s) {step : Step} (hstep : step ∈ wave)
    {acquired remaining : List ResourceClaim}
    (hclaims : ∀ c ∈ acquired ++ remaining, c ∈ invokeClaims toolClaims step) (expired : Bool) :
    Within toolClaims wave (s.advance step.id acquired remaining expired) := by
  obtain ⟨hholders, hwaiting, htimedOut⟩ := advance_spec s step.id acquired remaining expired
  refine ⟨fun key id hkey => ?_, fun id b hb => ?_, fun id claims hout => ?_⟩
  · rcases hholders key id hkey with hold | ⟨rfl, c, hc, hckey⟩
    · exact h.holders key id hold
    · exact ⟨step, hstep, rfl, c, hclaims c (List.mem_append_right _ hc), hckey⟩
  · rcases hwaiting id b hb with hold | ⟨rfl, heq⟩
    · exact h.waiting id b hold
    · rw [heq]
      exact ⟨step, hstep, rfl, hclaims⟩
  · obtain ⟨rfl, rfl⟩ := htimedOut id claims hout
    exact ⟨step, hstep, rfl, hclaims⟩

theorem Within.step (hids : (wave.map Step.id).Nodup) (h : Within toolClaims wave s)
    {move : SchedulerMove} (ht : scheduler.step s move = some t)
    (hmove : WaveMove toolClaims wave s move) : Within toolClaims wave t := by
  cases move with
  | acquire id claims expired =>
    obtain ⟨step, hstep, rfl, rfl, -⟩ := hmove
    simp only [scheduler] at ht
    split at ht
    · cases ht
    · cases ht
      apply h.advance hstep
      intro c hc
      exact mem_ordered.mp hc
  | wake id expired =>
    obtain ⟨step, hstep, rfl⟩ := hmove
    simp only [scheduler] at ht
    split at ht
    · rename_i b hb
      cases ht
      obtain ⟨step', hstep', hid, hclaims⟩ := h.waiting _ b hb
      have hsame : step' = step := List.inj_on_of_nodup_map hids hstep' hstep hid
      rw [hsame] at hclaims
      exact h.advance hstep hclaims expired
    · cases ht
  | release id claims =>
    simp only [scheduler] at ht
    split at ht
    · cases ht
    · cases ht
      refine ⟨fun key other hkey => ?_, h.waiting, fun _ _ hout => (by cases hout)⟩
      apply h.holders key other
      by_cases hid : other = id
      · rw [hid] at hkey ⊢
        exact ((releaseUnlocked_own id claims s.holders key).mp hkey).1
      · exact (releaseUnlocked_others hid claims s.holders key).mp hkey

theorem within_start : Within toolClaims wave .start :=
  ⟨fun _ _ h => (by cases h), fun _ _ h => (by cases h), fun _ _ h => (by cases h)⟩

/-- Steps with keys apart never wait for each other. -/
theorem neverWaits_of_keysApart (hids : (wave.map Step.id).Nodup)
    (hapart : ∀ a ∈ wave, ∀ b ∈ wave, a.id ≠ b.id → KeysApart toolClaims a b) :
    NeverWaits toolClaims wave := by
  intro moves s halong hs a ha b hb hne
  have hwithin : Within toolClaims wave s := System.run_invariant_along
    (fun _ _ _ hok ht hmove => Within.step hids hok ht hmove) within_start halong hs
  have hholder : ∀ c ∈ invokeClaims toolClaims a, s.holders c.key ≠ some b.id := by
    intro c hc hheld
    obtain ⟨step, hstep, hid, d, hd, hkey⟩ := hwithin.holders c.key b.id hheld
    have hsame : step = b := List.inj_on_of_nodup_map hids hstep hb hid
    rw [hsame] at hd
    exact hapart a ha b hb hne c hc d hd hkey.symm
  refine ⟨?_, ?_⟩
  · rintro ⟨w, hw, hheld⟩
    obtain ⟨step, hstep, hid, hclaims⟩ := hwithin.waiting a.id w hw
    have hsame : step = a := List.inj_on_of_nodup_map hids hstep ha hid
    rw [hsame] at hclaims
    exact hholder w.claim (hclaims _ (List.mem_append_right _ List.mem_cons_self)) hheld
  · rintro ⟨claims, hout, c, hc, hheld⟩
    obtain ⟨step, hstep, hid, hclaims⟩ := hwithin.timedOut a.id claims hout
    have hsame : step = a := List.inj_on_of_nodup_map hids hstep ha hid
    rw [hsame] at hclaims
    exact hholder c (hclaims c hc) hheld

/-- An acquire when nobody else holds anything returns with all of its claims. -/
theorem first_acquire (a : StepId) (claims : List ResourceClaim) :
    ∃ s, Scheduler.start.advance a [] (ordered claims) false = s ∧
      (∀ id, s.waiting id = none) ∧ (∀ id, id ≠ a → s.granted id = []) ∧
      (∀ key id, s.holders key = some id → id = a) ∧
      ∀ c ∈ claims, s.holders c.key = some a := by
  obtain ⟨taken, hp⟩ := acquireFrom_progress a Scheduler.start.holders [] (ordered claims)
  have hblocked := @acquireFrom_blocked a Scheduler.start.holders [] (ordered claims)
  unfold Scheduler.advance
  generalize acquireFrom a Scheduler.start.holders [] (ordered claims) = out at hp hblocked
  obtain ⟨holders, acquired, remaining⟩ := out
  have honly : ∀ key id, holders key = some id → id = a := by
    intro key id hkey
    by_contra hne
    have hbefore : Scheduler.start.holders key = some id := (hp.others key id hne).mp hkey
    cases hbefore
  cases remaining with
  | cons claim rest =>
    obtain ⟨other, hne, hheld⟩ := hblocked rfl
    exact absurd (honly claim.key other hheld) hne
  | nil =>
    refine ⟨_, rfl, fun id => ?_, fun id hne => setAt_of_ne _ _ hne, honly, fun c hc => ?_⟩
    · by_cases hid : id = a
      · rw [hid]
        exact setAt_self _ _ _
      · exact setAt_of_ne _ _ hid
    · have htaken : c ∈ taken := by
        have hall : ordered claims = taken ++ [] := hp.remaining
        rw [List.append_nil] at hall
        rw [← hall]
        exact mem_ordered.mpr hc
      exact (hp.own c.key).mpr (Or.inr ⟨c, htaken, rfl⟩)

/-- An acquire of a key that the only other step holds waits for that step. -/
theorem second_acquire {a b : StepId} (hne : a ≠ b) {claims : List ResourceClaim}
    (honly : ∀ key id, s.holders key = some id → id = a) {d : ResourceClaim} (hd : d ∈ claims)
    (hheld : s.holders d.key = some a) :
    (s.advance b [] (ordered claims) false).WaitsFor b a := by
  obtain ⟨taken, hp⟩ := acquireFrom_progress b s.holders [] (ordered claims)
  have hblocked := @acquireFrom_blocked b s.holders [] (ordered claims)
  unfold Scheduler.advance
  generalize acquireFrom b s.holders [] (ordered claims) = out at hp hblocked
  obtain ⟨holders, acquired, remaining⟩ := out
  cases remaining with
  | nil =>
    -- With nothing left it would have taken the key that the other step holds.
    have htaken : d ∈ taken := by
      have hall : ordered claims = taken ++ [] := hp.remaining
      rw [List.append_nil] at hall
      rw [← hall]
      exact mem_ordered.mpr hd
    have hmine : holders d.key = some b := (hp.own d.key).mpr (Or.inr ⟨d, htaken, rfl⟩)
    have hother : holders d.key = some a := (hp.others d.key a hne).mpr hheld
    rw [hmine] at hother
    exact absurd (Option.some.inj hother).symm hne
  | cons claim rest =>
    obtain ⟨other, hother, hstands⟩ := hblocked rfl
    have hbefore : s.holders claim.key = some other := (hp.others claim.key other hother).mp hstands
    rw [honly claim.key other hbefore] at hstands
    exact ⟨⟨acquired, claim, rest⟩, setAt_self _ _ _, hstands⟩

/-- Steps that share a key can be made to wait. -/
theorem not_neverWaits {a b : Step} (ha : a ∈ wave) (hb : b ∈ wave) (hne : a.id ≠ b.id)
    (hshare : ¬ KeysApart toolClaims a b) : ¬ NeverWaits toolClaims wave := by
  unfold KeysApart at hshare
  push Not at hshare
  obtain ⟨c, hc, d, hd, hkey⟩ := hshare
  obtain ⟨s, hs, hidle, hgranted, honly, hholds⟩ :=
    first_acquire a.id (invokeClaims toolClaims a)
  have hfirst : scheduler.step .start
      (.acquire a.id (invokeClaims toolClaims a) false) = some s := congrArg some hs
  have hsecond : scheduler.step s (.acquire b.id (invokeClaims toolClaims b) false) =
      some (s.advance b.id [] (ordered (invokeClaims toolClaims b)) false) := by
    simp only [scheduler, hidle]
  intro hnever
  have hwaits := second_acquire hne honly hd (hkey ▸ hholds c hc)
  refine (hnever [.acquire a.id (invokeClaims toolClaims a) false,
    .acquire b.id (invokeClaims toolClaims b) false] _ ?_ ?_ b hb a ha hne.symm).1 hwaits
  · intro t ht
    rw [hfirst] at ht
    cases ht
    refine ⟨⟨a, ha, rfl, rfl, rfl⟩, fun u hu => ⟨⟨b, hb, rfl, rfl, ?_⟩, trivial⟩⟩
    exact hgranted b.id hne.symm
  · exact System.run_cons.mpr ⟨s, hfirst, System.run_cons.mpr ⟨_, hsecond, rfl⟩⟩

theorem conflictsWith_comm (a b : ResourceClaim) : conflictsWith a b = conflictsWith b a := by
  unfold conflictsWith
  rw [Bool.or_comm]
  simp only [ne_comm]

theorem claimsConflict_comm (a b : List ResourceClaim) :
    claimsConflict a b = claimsConflict b a := by
  rw [Bool.eq_iff_iff]
  simp only [claimsConflict, List.any_eq_true]
  constructor
  · rintro ⟨c, hc, d, hd, hconflict⟩
    exact ⟨d, hd, c, hc, conflictsWith_comm c d ▸ hconflict⟩
  · rintro ⟨d, hd, c, hc, hconflict⟩
    exact ⟨c, hc, d, hd, conflictsWith_comm d c ▸ hconflict⟩

/-- The declared resources of two steps that packing puts in one wave. -/
def Packable (a b : Step) : Prop := claimsConflict a.resources b.resources = false

theorem packable_symm {a b : Step} (h : Packable a b) : Packable b a := by
  unfold Packable at *
  rw [claimsConflict_comm]
  exact h

instance : Std.Symm Packable := ⟨fun _ _ => packable_symm⟩

theorem packFrom_pairwise (cap : ℕ) {selected : List Step} (ready : List Step)
    (h : selected.Pairwise Packable) : (packFrom cap selected ready).Pairwise Packable := by
  induction ready generalizing selected with
  | nil => exact h
  | cons step ready ih =>
    unfold packFrom
    by_cases hcap : cap ≤ selected.length
    · rw [if_pos hcap]
      exact h
    · rw [if_neg hcap]
      by_cases hconflict : (selected.any fun other =>
          claimsConflict step.resources other.resources) = true
      · rw [if_pos hconflict]
        exact ih h
      · rw [if_neg hconflict]
        apply ih
        rw [List.pairwise_append]
        refine ⟨h, List.pairwise_singleton _ _, fun other hother new hnew => ?_⟩
        rw [List.mem_singleton.mp hnew]
        apply packable_symm
        have hnone := List.any_eq_false.mp (Bool.eq_false_iff.mpr hconflict) other hother
        exact Bool.eq_false_iff.mpr hnone

theorem packWave_packable (cap : ℕ) (ready : List Step) :
    (packWave cap ready).Pairwise Packable := by
  have hpacked := packFrom_pairwise cap ready List.Pairwise.nil
  unfold packWave
  cases hselected : packFrom cap [] ready with
  | nil =>
    cases ready with
    | nil => exact List.Pairwise.nil
    | cons step ready => exact List.pairwise_singleton _ _
  | cons step selected =>
    rw [hselected] at hpacked
    exact hpacked

/-- The first two of the ready steps are packed together when their resources allow it. -/
theorem packWave_two {a b : Step} (rest : List Step) (h : Packable a b) :
    packWave 2 (a :: b :: rest) = [a, b] := by
  have hback : claimsConflict b.resources a.resources = false := packable_symm h
  have hpacked : packFrom 2 [] (a :: b :: rest) = [a, b] := by
    simp only [packFrom, List.length_nil, List.any_nil, List.nil_append, List.length_cons,
      List.any_cons, hback, List.singleton_append]
    cases rest with
    | nil => rfl
    | cons c rest => rfl
  unfold packWave
  rw [hpacked]

/-- When the waves of a set of ready steps, in any order and under any cap, never wait. -/
theorem packed_never_wait_iff (toolClaims : String → List ResourceClaim) {steps : List Step}
    (hids : (steps.map Step.id).Nodup) :
    (∀ ready, ready.Perm steps → ∀ cap, NeverWaits toolClaims (packWave cap ready)) ↔
      ∀ a ∈ steps, ∀ b ∈ steps, a.id ≠ b.id → claimsConflict a.resources b.resources = false →
        KeysApart toolClaims a b := by
  constructor
  · intro hnever a ha b hb hne hpackable
    by_contra hshare
    obtain ⟨before, after, hsplit⟩ := List.append_of_mem ha
    have hb' : b ∈ before ++ after := by
      rw [hsplit] at hb
      rcases List.mem_append.mp hb with hb | hb
      · exact List.mem_append_left _ hb
      · rcases List.mem_cons.mp hb with rfl | hb
        · exact absurd rfl hne
        · exact List.mem_append_right _ hb
    obtain ⟨left, right, hrest⟩ := List.append_of_mem hb'
    have hperm : (a :: b :: (left ++ right)).Perm steps := by
      rw [hsplit]
      refine (List.Perm.cons a ?_).trans List.perm_middle.symm
      rw [hrest]
      exact List.perm_middle.symm
    have hwave := hnever _ hperm 2
    rw [packWave_two (left ++ right) hpackable] at hwave
    exact not_neverWaits List.mem_cons_self (List.mem_cons_of_mem a List.mem_cons_self) hne hshare
      hwave
  · intro hall ready hperm cap
    have hsub := packWave_sublist cap ready
    have hready : (ready.map Step.id).Nodup := (hperm.map Step.id).nodup_iff.mpr hids
    apply neverWaits_of_keysApart ((hsub.map Step.id).nodup hready)
    intro a ha b hb hne
    have hpackable : Packable a b := by
      apply (packWave_packable cap ready).forall ha hb
      rintro rfl
      exact hne rfl
    exact hall a (hperm.subset (hsub.subset ha)) b (hperm.subset (hsub.subset hb)) hne hpackable

def plainStep (id tool : String) (resources : List ResourceClaim) : Step where
  id := id
  tool := some tool
  outputs := []
  inputBindings := []
  resources := resources
  outputsUnique := List.nodup_nil
  inputsUnique := List.nodup_nil

/-- The claims of the tools that `register_first_domain_tools` registers. -/
def firstDomainClaims : String → List ResourceClaim
  | "edit_file" => [⟨.file, "*", .write⟩]
  | "fetch" => [⟨.rateLimit, "fetch", .write⟩]
  | _ => []

def threeWriters : List Step :=
  [plainStep "w1" "shell" [writeFile "shared"], plainStep "w2" "shell" [writeFile "shared"],
    plainStep "w3" "edit_file" [writeFile "notes"]]

/-- Of two steps that write one file the second goes into a later wave; a third step is packed with
the first, and neither waits. -/
theorem packed_never_wait_writers :
    (packWave 8 threeWriters).map Step.id = ["w1", "w3"] ∧
      NeverWaits firstDomainClaims (packWave 8 threeWriters) := by
  refine ⟨rfl, (packed_never_wait_iff firstDomainClaims (by decide)).mpr ?_ threeWriters
    (List.Perm.refl _) 8⟩
  unfold KeysApart
  decide

def twoFetches : List Step := [plainStep "changelog" "fetch" [], plainStep "metadata" "fetch" []]

/-- Two fetches are packed into one wave, and the tool's rate limit makes one wait for the other. -/
theorem not_packed_never_wait_fetches :
    ¬ ∀ ready, ready.Perm twoFetches → ∀ cap,
      NeverWaits firstDomainClaims (packWave cap ready) := by
  intro h
  have hwave := h twoFetches (List.Perm.refl _) 8
  have hpacked : packWave 8 twoFetches = twoFetches := rfl
  rw [hpacked] at hwave
  have hlimit : (⟨.rateLimit, "fetch", .write⟩ : ResourceClaim) ∈ firstDomainClaims "fetch" :=
    List.mem_singleton_self _
  refine not_neverWaits List.mem_cons_self (List.mem_cons_of_mem _ List.mem_cons_self) ?_ ?_ hwave
  · decide
  · intro hapart
    exact hapart _ (List.mem_append_left _ hlimit) _ (List.mem_append_left _ hlimit) rfl

end Recertia.Solver
