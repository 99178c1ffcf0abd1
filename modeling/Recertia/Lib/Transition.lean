import Mathlib.Data.List.Induction

/-! Deterministic labelled transition systems. A label carries every choice the
environment makes, so a run is a list of labels and can be evaluated. -/
namespace Transition

structure System (σ : Type*) (ℓ : Type*) where
  step : σ → ℓ → Option σ

namespace System
variable {σ : Type*} {ℓ : Type*} (T : System σ ℓ)

def run : σ → List ℓ → Option σ
  | s, [] => some s
  | s, l :: ls => (T.step s l).bind fun t => run t ls

/-- Every transition that `ls` takes from `s` satisfies `P`, which sees the state
before, the label and the state after. -/
def Along (P : σ → ℓ → σ → Prop) : σ → List ℓ → Prop
  | _, [] => True
  | s, l :: ls => ∀ t, T.step s l = some t → P s l t ∧ Along P t ls

variable {T}

@[simp] theorem run_nil (s : σ) : T.run s [] = some s := rfl

theorem run_cons {s u : σ} {l : ℓ} {ls : List ℓ} :
    T.run s (l :: ls) = some u ↔ ∃ t, T.step s l = some t ∧ T.run t ls = some u := by
  simp only [run, Option.bind_eq_some_iff]

theorem run_append {s u : σ} {ls ms : List ℓ} :
    T.run s (ls ++ ms) = some u ↔ ∃ t, T.run s ls = some t ∧ T.run t ms = some u := by
  induction ls generalizing s with
  | nil => simp only [List.nil_append, run_nil, Option.some.injEq, exists_eq_left']
  | cons l ls ih =>
    simp only [List.cons_append, run_cons, ih]
    constructor
    · rintro ⟨t, hl, v, hv, hu⟩
      exact ⟨v, ⟨t, hl, hv⟩, hu⟩
    · rintro ⟨v, ⟨t, hl, hv⟩, hu⟩
      exact ⟨t, hl, v, hv, hu⟩

theorem run_snoc {s u : σ} {ls : List ℓ} {l : ℓ} :
    T.run s (ls ++ [l]) = some u ↔ ∃ t, T.run s ls = some t ∧ T.step t l = some u := by
  simp only [run_append, run_cons, run_nil, Option.some.injEq, exists_eq_right]

theorem along_mono {P Q : σ → ℓ → σ → Prop} {s : σ} {ls : List ℓ}
    (hPQ : ∀ s l t, T.step s l = some t → P s l t → Q s l t) (h : T.Along P s ls) :
    T.Along Q s ls := by
  induction ls generalizing s with
  | nil => exact h
  | cons l ls ih =>
    intro t ht
    exact ⟨hPQ s l t ht (h t ht).1, ih (h t ht).2⟩

theorem along_congr {P Q : σ → ℓ → σ → Prop} (s : σ) (ls : List ℓ)
    (hPQ : ∀ s l t, T.step s l = some t → (P s l t ↔ Q s l t)) :
    T.Along P s ls ↔ T.Along Q s ls :=
  ⟨along_mono fun s l t ht => (hPQ s l t ht).mp, along_mono fun s l t ht => (hPQ s l t ht).mpr⟩

theorem along_and {P Q : σ → ℓ → σ → Prop} {s : σ} {ls : List ℓ}
    (hP : T.Along P s ls) (hQ : T.Along Q s ls) :
    T.Along (fun s l t => P s l t ∧ Q s l t) s ls := by
  induction ls generalizing s with
  | nil => exact trivial
  | cons l ls ih =>
    intro t ht
    exact ⟨⟨(hP t ht).1, (hQ t ht).1⟩, ih (hP t ht).2 (hQ t ht).2⟩

theorem along_append {P : σ → ℓ → σ → Prop} {s t : σ} {ls ms : List ℓ}
    (h : T.Along P s (ls ++ ms)) (ht : T.run s ls = some t) : T.Along P t ms := by
  induction ls generalizing s with
  | nil =>
    cases ht
    exact h
  | cons l ls ih =>
    obtain ⟨v, hv, hr⟩ := run_cons.mp ht
    exact ih (h v hv).2 hr

theorem along_prefix {P : σ → ℓ → σ → Prop} {s : σ} {ls ms : List ℓ}
    (h : T.Along P s (ls ++ ms)) : T.Along P s ls := by
  induction ls generalizing s with
  | nil => exact trivial
  | cons l ls ih =>
    intro t ht
    exact ⟨(h t ht).1, ih (h t ht).2⟩

/-- A property of the labels alone holds along every run over them. -/
theorem along_of_labels {P : ℓ → Prop} (s : σ) {ls : List ℓ} (h : ∀ l ∈ ls, P l) :
    T.Along (fun _ l _ => P l) s ls := by
  induction ls generalizing s with
  | nil => exact trivial
  | cons l ls ih =>
    have hl : P l := h l List.mem_cons_self
    exact fun t _ => ⟨hl, ih t fun m hm => h m (List.mem_cons_of_mem _ hm)⟩

theorem along_snoc {P : σ → ℓ → σ → Prop} {s t : σ} {ls : List ℓ} {l : ℓ}
    (h : T.Along P s ls) (ht : T.run s ls = some t)
    (hl : ∀ u, T.step t l = some u → P t l u) : T.Along P s (ls ++ [l]) := by
  induction ls generalizing s with
  | nil =>
    cases ht
    exact fun u hu => ⟨hl u hu, trivial⟩
  | cons m ls ih =>
    obtain ⟨v, hv, hr⟩ := run_cons.mp ht
    intro u hu
    rw [hv] at hu
    cases hu
    exact ⟨(h v hv).1, ih (h v hv).2 hr⟩

/-- The invariant rule. -/
theorem run_invariant {I : σ → Prop} {s u : σ} {ls : List ℓ}
    (hstep : ∀ s l t, I s → T.step s l = some t → I t)
    (hs : I s) (hu : T.run s ls = some u) : I u := by
  induction ls generalizing s with
  | nil =>
    cases hu
    exact hs
  | cons l ls ih =>
    obtain ⟨t, ht, hr⟩ := run_cons.mp hu
    exact ih (hstep s l t hs ht) hr

/-- The invariant rule for runs whose transitions all satisfy the guard `G`. -/
theorem run_invariant_along {I : σ → Prop} {G : σ → ℓ → σ → Prop} {s u : σ} {ls : List ℓ}
    (hstep : ∀ s l t, I s → T.step s l = some t → G s l t → I t)
    (hs : I s) (hG : T.Along G s ls) (hu : T.run s ls = some u) : I u := by
  induction ls generalizing s with
  | nil =>
    cases hu
    exact hs
  | cons l ls ih =>
    obtain ⟨t, ht, hr⟩ := run_cons.mp hu
    exact ih (hstep s l t hs ht (hG t ht).1) (hG t ht).2 hr

/-- A step property that the invariant and the guard give holds all along the run. -/
theorem along_of_invariant {I : σ → Prop} {G P : σ → ℓ → σ → Prop} {s : σ} {ls : List ℓ}
    (hstep : ∀ s l t, I s → T.step s l = some t → G s l t → I t)
    (hP : ∀ s l t, I s → T.step s l = some t → G s l t → P s l t)
    (hs : I s) (hG : T.Along G s ls) : T.Along P s ls := by
  induction ls generalizing s with
  | nil => exact trivial
  | cons l ls ih =>
    intro t ht
    have hg := hG t ht
    exact ⟨hP s l t hs ht hg.1, ih (hstep s l t hs ht hg.1) hg.2⟩

/-- Two step properties that agree under an invariant, which either of them keeps, hold along the
same runs. -/
theorem along_iff_of_invariant {I : σ → Prop} {P Q : σ → ℓ → σ → Prop} {s : σ}
    (hstep : ∀ s l t, I s → T.step s l = some t → Q s l t → I t)
    (hPQ : ∀ s l t, I s → T.step s l = some t → (P s l t ↔ Q s l t)) (hs : I s) (ls : List ℓ) :
    T.Along P s ls ↔ T.Along Q s ls := by
  constructor
  · apply along_of_invariant (I := I) _ _ hs
    · exact fun s l t hI ht hP => hstep s l t hI ht ((hPQ s l t hI ht).mp hP)
    · exact fun s l t hI ht hP => (hPQ s l t hI ht).mp hP
  · apply along_of_invariant (I := I) hstep _ hs
    exact fun s l t hI ht hQ => (hPQ s l t hI ht).mpr hQ

theorem along_of_inductive {I : σ → Prop} {P : σ → ℓ → σ → Prop} {s : σ} {ls : List ℓ}
    (hstep : ∀ s l t, I s → T.step s l = some t → I t)
    (hP : ∀ s l t, I s → T.step s l = some t → P s l t) (hs : I s) : T.Along P s ls := by
  induction ls generalizing s with
  | nil => exact trivial
  | cons l ls ih => exact fun t ht => ⟨hP s l t hs ht, ih (hstep s l t hs ht)⟩

/-- The entry rule. A region that a run starts outside of is entered by a transition that
satisfies `V`; after the last such transition every transition stays inside and satisfies `Q`. -/
theorem last_entry {R : σ → Prop} {V Q : σ → ℓ → σ → Prop} {s u : σ} {ls : List ℓ}
    (hstep : ∀ s l t, T.step s l = some t → R t → V s l t ∨ (R s ∧ Q s l t))
    (hs : ¬ R s) (hu : T.run s ls = some u) (hR : R u) :
    ∃ pre l post v w, ls = pre ++ l :: post ∧ T.run s pre = some v ∧ T.step v l = some w ∧
      V v l w ∧ T.run w post = some u ∧ T.Along Q w post := by
  induction ls using List.reverseRecOn generalizing u with
  | nil =>
    cases hu
    exact (hs hR).elim
  | append_singleton ls l ih =>
    obtain ⟨t, ht, hl⟩ := run_snoc.mp hu
    rcases hstep t l u hl hR with hV | ⟨hRt, hQ⟩
    · exact ⟨ls, l, [], t, u, rfl, ht, hl, hV, rfl, trivial⟩
    · obtain ⟨pre, m, post, v, w, rfl, hpre, hm, hV, hpost, hQs⟩ := ih ht hRt
      refine ⟨pre, m, post ++ [l], v, w, by simp, hpre, hm, hV, run_snoc.mpr ⟨t, hpost, hl⟩, ?_⟩
      exact along_snoc hQs hpost fun t' ht' => by
        rw [hl] at ht'
        cases ht'
        exact hQ

/-- The halting rule. A variant that falls with every step of a stream of labels, until a state
that stops, bounds the number of steps until then. -/
theorem exists_stopped {I stopped : σ → Prop} {μ : σ → ℕ} {f : ℕ → ℓ}
    (hstep : ∀ s n, I s → ¬ stopped s → ∃ t, T.step s (f n) = some t ∧ I t ∧ μ t < μ s)
    {s : σ} (hs : I s) :
    ∃ n ≤ μ s, ∃ u, T.run s ((List.range n).map f) = some u ∧ I u ∧ stopped u := by
  -- The induction is on the variant; the stream is shifted by one label at each step.
  induction hμ : μ s using Nat.strongRecOn generalizing s f with
  | ind m ih =>
    by_cases hstop : stopped s
    · exact ⟨0, Nat.zero_le _, s, rfl, hs, hstop⟩
    · obtain ⟨t, ht, hIt, hlt⟩ := hstep s 0 hs hstop
      have hshift : ∀ s n, I s → ¬ stopped s →
          ∃ t, T.step s (f (n + 1)) = some t ∧ I t ∧ μ t < μ s := fun s n => hstep s (n + 1)
      obtain ⟨n, hn, u, hu, hIu, hstopped⟩ :=
        ih (μ t) (hμ ▸ hlt) (f := fun n => f (n + 1)) hshift hIt rfl
      refine ⟨n + 1, by omega, u, ?_, hIu, hstopped⟩
      have hrange : (List.range (n + 1)).map f =
          f 0 :: (List.range n).map fun n => f (n + 1) := by
        rw [List.range_succ_eq_map, List.map_cons, List.map_map]
        rfl
      rw [hrange]
      exact run_cons.mpr ⟨t, ht, hu⟩

/-- A run does not go on behind a state without a step. -/
theorem run_append_eq_none {s t : σ} {ls ms : List ℓ} {l : ℓ} (ht : T.run s ls = some t)
    (hl : T.step t l = none) : T.run s (ls ++ l :: ms) = none := by
  apply Option.eq_none_iff_forall_ne_some.mpr
  intro u hu
  obtain ⟨v, hv, hrest⟩ := run_append.mp hu
  rw [ht] at hv
  cases hv
  obtain ⟨w, hw, -⟩ := run_cons.mp hrest
  rw [hl] at hw
  cases hw

theorem not_along_snoc {P : σ → ℓ → σ → Prop} {s t u : σ} {ls : List ℓ} {l : ℓ}
    (ht : T.run s ls = some t) (hu : T.step t l = some u) (hbad : ¬ P t l u) :
    ¬ T.Along P s (ls ++ [l]) :=
  fun h => hbad (along_append h ht u hu).1

/-- A guard on the state before and the label, evaluated along a run. -/
def check (T : System σ ℓ) (g : σ → ℓ → Bool) : σ → List ℓ → Bool
  | _, [] => true
  | s, l :: ls => (T.step s l).all fun t => g s l && check T g t ls

theorem along_of_check {g : σ → ℓ → Bool} {s : σ} {ls : List ℓ} (h : T.check g s ls = true) :
    T.Along (fun s l _ => g s l = true) s ls := by
  induction ls generalizing s with
  | nil => exact trivial
  | cons l ls ih =>
    intro t ht
    rw [check, ht, Option.all_some, Bool.and_eq_true] at h
    exact ⟨h.1, ih h.2⟩

/-- The system with a history variable, which sees every transition and changes none. -/
def monitor {μ : Type*} (T : System σ ℓ) (see : σ → ℓ → σ → μ → μ) : System (σ × μ) ℓ where
  step s l := (T.step s.1 l).map fun t => (t, see s.1 l t s.2)

theorem monitor_step {μ : Type*} {see : σ → ℓ → σ → μ → μ} {s t : σ × μ} {l : ℓ} :
    (T.monitor see).step s l = some t ↔ T.step s.1 l = some t.1 ∧ t.2 = see s.1 l t.1 s.2 := by
  obtain ⟨t, m⟩ := t
  simp only [monitor, Option.map_eq_some_iff, Prod.mk.injEq]
  constructor
  · rintro ⟨v, hv, rfl, rfl⟩
    exact ⟨hv, rfl⟩
  · rintro ⟨hv, rfl⟩
    exact ⟨t, hv, rfl, rfl⟩

/-- The induction rule of a monitored run: what the monitor has seen is in the invariant. -/
theorem along_monitor_of_inductive {μ : Type*} {see : σ → ℓ → σ → μ → μ} {I : σ × μ → Prop}
    {P : σ × μ → ℓ → σ × μ → Prop} {s : σ × μ} {ls : List ℓ}
    (hstep : ∀ s m l t, I (s, m) → T.step s l = some t → I (t, see s l t m))
    (hP : ∀ s m l t, I (s, m) → T.step s l = some t → P (s, m) l (t, see s l t m)) (hs : I s) :
    (T.monitor see).Along P s ls := by
  apply along_of_inductive (I := I) _ _ hs
  · rintro ⟨s, m⟩ l ⟨t, n⟩ hI h
    obtain ⟨ht, hn⟩ := monitor_step.mp h
    dsimp only at hn
    rw [hn]
    exact hstep s m l t hI ht
  · rintro ⟨s, m⟩ l ⟨t, n⟩ hI h
    obtain ⟨ht, hn⟩ := monitor_step.mp h
    dsimp only at hn
    rw [hn]
    exact hP s m l t hI ht

theorem along_monitor {μ : Type*} {see : σ → ℓ → σ → μ → μ} {P : σ → ℓ → σ → Prop}
    {s : σ × μ} {ls : List ℓ} (h : T.Along P s.1 ls) :
    (T.monitor see).Along (fun s l t => P s.1 l t.1) s ls := by
  induction ls generalizing s with
  | nil => exact trivial
  | cons l ls ih =>
    intro t ht
    have hfirst := h t.1 (monitor_step.mp ht).1
    exact ⟨hfirst.1, ih hfirst.2⟩

end System
end Transition
