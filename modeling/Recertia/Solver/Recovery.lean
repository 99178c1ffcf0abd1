import Mathlib.Tactic.Linarith
import Recertia.Solver.Resilience

/-! When the circuit of a model lets calls through again. -/
namespace Recertia.Solver

open Transition

variable {cfg : Config}

section Circuit

/-- A refusal changes nothing. -/
theorem beforeCall_refused {now : ℚ} {s : CircuitState} (h : (beforeCall cfg now s).2 = false) :
    (beforeCall cfg now s).1 = s := by
  rw [beforeCall] at h ⊢
  by_cases hopen : s.phase = .open_ ∧ cfg.openS ≤ now - s.openedAt
  · simp only [if_pos hopen] at h
    cases h
  · simp only [if_neg hopen] at h ⊢
    cases hphase : s.phase with
    | closed => rfl
    | open_ => rfl
    | halfOpen =>
      rw [hphase] at h
      dsimp only at h ⊢
      cases hprobe : s.probe with
      | true => rfl
      | false =>
        rw [hprobe] at h
        cases h

/-- Whom a circuit admits: everyone when closed, after a while when open, and without a probe
half-open. -/
theorem beforeCall_admits_iff (now : ℚ) (s : CircuitState) :
    (beforeCall cfg now s).2 = true ↔
      (s.phase = .open_ → cfg.openS ≤ now - s.openedAt) ∧
      (s.phase = .halfOpen → s.probe = false) := by
  rw [beforeCall]
  cases hphase : s.phase with
  | closed => simp [hphase]
  | open_ =>
    by_cases hlong : cfg.openS ≤ now - s.openedAt
    · simp [hlong]
    · simp [hlong, hphase]
  | halfOpen =>
    cases hprobe : s.probe <;> simp [hphase, hprobe]

theorem recordFailure_phase (now : ℚ) (s : CircuitState) :
    (recordFailure cfg now s).phase ≠ .halfOpen := by
  rw [recordFailure]
  split
  · exact Phase.noConfusion
  · rename_i hphase
    dsimp only
    split
    · exact Phase.noConfusion
    · exact hphase

/-- An outcome that is recorded ends the half-open phase, whoever it is of. -/
theorem settle_of_recorded {ended : Ended} (h : ended.recorded = true) (now : ℚ)
    (s : CircuitState) : (ended.settle cfg now s).phase ≠ .halfOpen := by
  rw [Ended.settle]
  cases ended with
  | returned late =>
    cases late with
    | true => exact recordFailure_phase now s
    | false => exact Phase.noConfusion
  | raised chain =>
    rw [Ended.recorded] at h
    rw [Ended.record]
    cases hclass : classify chain with
    | ok => rw [hclass] at h; cases h
    | clientError => rw [hclass] at h; cases h
    | retryable => exact recordFailure_phase now s
    | timeout => exact recordFailure_phase now s
  | aborted => cases h

theorem settle_of_not_recorded {ended : Ended} (h : ended.recorded = false) (now : ℚ)
    (s : CircuitState) : ended.settle cfg now s = s := by
  rw [Ended.settle]
  cases ended with
  | returned late => cases h
  | raised chain =>
    rw [Ended.recorded] at h
    rw [Ended.record]
    cases hclass : classify chain with
    | ok => rfl
    | clientError => rfl
    | retryable => rw [hclass] at h; cases h
    | timeout => rw [hclass] at h; cases h
  | aborted => rfl

end Circuit

section Calls

/-- A probe of this circuit is still executing. -/
def World.probing (w : World) (key : Key) : Prop :=
  ∃ id call, w.running.get? id = some call ∧ call.key = key ∧ call.probe = true

/-- With no probe executing, a call is admitted once the circuit has been open for long enough. -/
def Recovers (cfg : Config) (w : World) : Prop :=
  ∀ key, ¬ w.probing key → ∀ now, w.clock ≤ now →
    (w.circuits key).openedAt + cfg.openS ≤ now → (beforeCall cfg now (w.circuits key)).2 = true

/-- A circuit whose probe flag is set has a probe executing. -/
def Held (w : World) : Prop :=
  ∀ key, (w.circuits key).phase = .halfOpen → (w.circuits key).probe = true → w.probing key

theorem recovers_iff_held (w : World) : Recovers cfg w ↔ Held w := by
  constructor
  · intro hrecovers key hphase hprobe
    by_contra hnone
    -- any call late enough shows the refusal
    have hadmits := hrecovers key hnone (max w.clock ((w.circuits key).openedAt + cfg.openS))
      (le_max_left _ _) (le_max_right _ _)
    rw [beforeCall_admits_iff] at hadmits
    rw [hadmits.2 hphase] at hprobe
    cases hprobe
  · intro hheld key hnone now _ hlong
    rw [beforeCall_admits_iff]
    refine ⟨fun _ => by linarith, fun hphase => ?_⟩
    cases hprobe : (w.circuits key).probe with
    | false => rfl
    | true => exact absurd (hheld key hphase hprobe) hnone

/-- The last probe executing for a half-open circuit ends and nothing is recorded of it. -/
def Strands (w : World) : Label → Prop
  | .beforeCall _ _ _ => False
  | .settle id ended _ => ended.recorded = false ∧ ∃ call, w.running.get? id = some call ∧
      call.probe = true ∧ (w.circuits call.key).phase = .halfOpen ∧
      (w.circuits call.key).probe = true ∧
      ∀ other call', other ≠ id → w.running.get? other = some call' → call'.key = call.key →
        call'.probe = false

theorem step_beforeCall {w t : World} {id : ℕ} {key : Key} {now : ℚ}
    (h : step cfg w (.beforeCall id key now) = some t) :
    t.circuits = Function.update w.circuits key (beforeCall cfg now (w.circuits key)).1 ∧
    t.clock = now ∧ w.clock ≤ now ∧
    (((beforeCall cfg now (w.circuits key)).2 = false ∧ t.running = w.running) ∨
      ((beforeCall cfg now (w.circuits key)).2 = true ∧
        w.running.insert id ⟨key, (beforeCall cfg now (w.circuits key)).1.phase = .halfOpen⟩ =
          some t.running)) := by
  rw [step] at h
  split at h
  · cases h
  · rename_i hclock
    dsimp only at h
    split at h
    · rename_i hadmitted
      obtain ⟨running, hrunning, rfl⟩ := Option.map_eq_some_iff.mp h
      exact ⟨rfl, rfl, not_lt.mp hclock, Or.inr ⟨hadmitted, hrunning⟩⟩
    · rename_i hrefused
      cases h
      exact ⟨rfl, rfl, not_lt.mp hclock, Or.inl ⟨by simpa using hrefused, rfl⟩⟩

theorem step_settle {w t : World} {id : ℕ} {ended : Ended} {now : ℚ}
    (h : step cfg w (.settle id ended now) = some t) :
    ∃ call, w.running.get? id = some call ∧
      t.circuits = Function.update w.circuits call.key
        (ended.settle cfg now (w.circuits call.key)) ∧
      ∀ other, t.running.get? other = if other = id then none else w.running.get? other := by
  rw [step] at h
  split at h
  · cases h
  · split at h
    · cases h
    · rename_i call hcall
      cases h
      refine ⟨call, hcall, rfl, fun other => ?_⟩
      rw [Table.get?_delete]
      by_cases hother : other = id
      · rw [if_pos hother]
        cases w.running.get? other <;> simp [hother]
      · rw [if_neg hother]
        cases w.running.get? other <;> simp [hother]

/-- An admitted call is the probe of its circuit if it finds it half-open, and a refused one changes
nothing. -/
theorem held_beforeCall {w t : World} {id : ℕ} {key : Key} {now : ℚ} (hheld : Held w)
    (h : step cfg w (.beforeCall id key now) = some t) : Held t := by
  obtain ⟨hcircuits, -, -, hrunning⟩ := step_beforeCall h
  intro key' hphase hprobe
  rw [hcircuits] at hphase hprobe
  rcases hrunning with ⟨hrefused, hsame⟩ | ⟨-, hinsert⟩
  · rw [beforeCall_refused hrefused, Function.update_eq_self] at hphase hprobe
    rw [World.probing, hsame]
    exact hheld key' hphase hprobe
  · have hget := Table.get?_insert hinsert
    by_cases hkey : key' = key
    · subst hkey
      rw [Function.update_self] at hphase
      exact ⟨id, _, (hget id).trans (if_pos rfl), rfl, decide_eq_true hphase⟩
    · rw [Function.update_of_ne hkey] at hphase hprobe
      obtain ⟨other, call, hcall, hrest⟩ := hheld key' hphase hprobe
      have hne : other ≠ id := by
        rintro rfl
        have hfresh := (Table.insert_eq_some.mp hinsert).1
        rw [← Table.get?_eq_none, hcall] at hfresh
        cases hfresh
      exact ⟨other, call, by rw [hget other, if_neg hne, hcall], hrest⟩

/-- The probes of another circuit go on. -/
theorem probing_of_settle {w t : World} {id : ℕ} {ended : Ended} {now : ℚ} {call : Call}
    (hheld : Held w) (hcall : w.running.get? id = some call)
    (hcircuits : t.circuits = Function.update w.circuits call.key
      (ended.settle cfg now (w.circuits call.key)))
    (hrunning : ∀ other, t.running.get? other = if other = id then none else w.running.get? other)
    {key : Key} (hkey : key ≠ call.key) (hphase : (t.circuits key).phase = .halfOpen)
    (hprobe : (t.circuits key).probe = true) : t.probing key := by
  rw [hcircuits, Function.update_of_ne hkey] at hphase hprobe
  obtain ⟨other, call', hcall', hkey', hflag⟩ := hheld key hphase hprobe
  have hne : other ≠ id := by
    rintro rfl
    rw [hcall] at hcall'
    cases hcall'
    exact hkey hkey'.symm
  exact ⟨other, call', by rw [hrunning, if_neg hne, hcall'], hkey', hflag⟩

theorem held_settle {w t : World} {id : ℕ} {ended : Ended} {now : ℚ} (hheld : Held w)
    (h : step cfg w (.settle id ended now) = some t) :
    Held t ↔ ¬ Strands w (.settle id ended now) := by
  obtain ⟨call, hcall, hcircuits, hrunning⟩ := step_settle h
  have hothers : ∀ key, key ≠ call.key → (t.circuits key).phase = .halfOpen →
      (t.circuits key).probe = true → t.probing key := fun _ hkey hphase hprobe =>
    probing_of_settle hheld hcall hcircuits hrunning hkey hphase hprobe
  have hown : t.circuits call.key = ended.settle cfg now (w.circuits call.key) := by
    rw [hcircuits, Function.update_self]
  cases hrecorded : ended.recorded with
  | true =>
    refine iff_of_true (fun key hphase hprobe => ?_) (fun hstrands => ?_)
    · by_cases hkey : key = call.key
      · rw [hkey, hown] at hphase
        exact absurd hphase (settle_of_recorded hrecorded now _)
      · exact hothers key hkey hphase hprobe
    · rw [hstrands.1] at hrecorded
      cases hrecorded
  | false =>
    rw [settle_of_not_recorded hrecorded] at hown
    constructor
    · rintro hafter ⟨-, call', hcall', -, hphase, hprobe, hlast⟩
      rw [hcall] at hcall'
      cases hcall'
      obtain ⟨other, holder, hget, hkey, hflag⟩ := hafter call.key (hown ▸ hphase) (hown ▸ hprobe)
      rw [hrunning] at hget
      split at hget
      · cases hget
      · rename_i hne
        rw [hlast other holder hne hget hkey] at hflag
        cases hflag
    · intro hnot key hphase hprobe
      by_cases hkey : key = call.key
      · subst hkey
        rw [hown] at hphase hprobe
        obtain ⟨other, holder, hget, hkey, hflag⟩ := hheld call.key hphase hprobe
        by_cases hne : other = id
        · -- The holder is the one that ends: another probe must be executing.
          subst hne
          rw [hcall] at hget
          cases hget
          by_contra hnone
          have hlast : ∀ other' call', other' ≠ other → w.running.get? other' = some call' →
              call'.key = call.key → call'.probe = false := by
            intro other' call' hne' hget' hkey'
            by_contra hprobe'
            exact hnone ⟨other', call', by rw [hrunning, if_neg hne', hget'], hkey',
              by simpa using hprobe'⟩
          exact hnot ⟨hrecorded, call, hcall, hflag, hphase, hprobe, hlast⟩
        · exact ⟨other, holder, by rw [hrunning, if_neg hne, hget], hkey, hflag⟩
      · exact hothers key hkey hphase hprobe

/-- A step keeps a probe for every probe flag, unless it strands the flag. -/
theorem held_step {w t : World} {l : Label} (hheld : Held w) (h : (system cfg).step w l = some t) :
    Held t ↔ ¬ Strands w l := by
  cases l with
  | beforeCall id key now =>
    exact iff_of_true (held_beforeCall hheld h)
      fun hstrands : Strands w (.beforeCall id key now) => hstrands
  | settle id ended now => exact held_settle hheld h

theorem held_start (clock : ℚ) : Held (start clock) := by
  intro key hphase
  cases hphase

variable (cfg)

/-- Every state of a run recovers exactly where no step of it strands a probe. -/
theorem recovers_along_iff (clock : ℚ) (ls : List Label) :
    (system cfg).Along (fun _ _ t => Recovers cfg t) (start clock) ls ↔
      (system cfg).Along (fun w l _ => ¬ Strands w l) (start clock) ls := by
  refine System.along_iff_of_invariant (I := Held) ?_ ?_ (held_start clock) ls
  · exact fun w l t hheld hstep hnot => (held_step hheld hstep).mpr hnot
  · intro w l t hheld hstep
    rw [recovers_iff_held, held_step hheld hstep]

/-- One failure opens the circuit, and the probe behind it is told that its key is wrong. -/
def refusedProbe : List Label :=
  [.beforeCall 0 ("openai", "gpt") 1, .settle 0 (.raised [{ status := some 503 }]) 2,
    .beforeCall 1 ("openai", "gpt") 32, .settle 1 (.raised [{ status := some 401 }]) 33]

/-- The probe's client error is not recorded: from then on every call is refused. -/
theorem not_recovers_clientError : ¬ ∀ (cfg : Config) (clock : ℚ) (ls : List Label) (t : World),
    (system cfg).run (start clock) ls = some t → Recovers cfg t := by
  intro hall
  have hrun : ((system { threshold := 1 }).run (start 0) refusedProbe).map (fun t =>
      ((t.circuits ("openai", "gpt")).phase, (t.circuits ("openai", "gpt")).probe,
        t.running.rows.length)) = some (.halfOpen, true, 0) := by
    decide +kernel
  obtain ⟨t, ht, hstate⟩ := Option.map_eq_some_iff.mp hrun
  simp only [Prod.mk.injEq] at hstate
  obtain ⟨hphase, hprobe, hidle⟩ := hstate
  obtain ⟨id, call, hcall, -⟩ :=
    (recovers_iff_held t).mp (hall _ 0 refusedProbe t ht) ("openai", "gpt") hphase hprobe
  have hrow := Table.get?_eq_some.mp hcall
  rw [List.length_eq_zero_iff.mp hidle] at hrow
  exact absurd hrow List.not_mem_nil

end Calls

end Recertia.Solver
