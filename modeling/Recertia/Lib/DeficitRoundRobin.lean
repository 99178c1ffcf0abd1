import Mathlib.Algebra.Order.Ring.Int

/-! Deficit round robin with a cap on the credit: one service costs its winner one unit, and
every other tenant earns its weight up to the cap. -/
namespace DeficitRoundRobin
variable {τ : Type*}

/-- One service. A tenant that is not present yet earns nothing. -/
structure Round (cap : ℤ) (weight : τ → ℤ) (present : τ → Prop) (winner : τ)
    (d d' : τ → ℤ) : Prop where
  paid : d' winner = d winner - 1
  credited : ∀ t, present t → t ≠ winner → d' t = min (d t + weight t) cap
  absent : ∀ t, ¬ present t → t ≠ winner → d' t = d t

/-- One tenant at most is below `level`, and by one unit only. -/
structure Level (level : ℤ) (d : τ → ℤ) : Prop where
  le : ∀ t, level - 1 ≤ d t
  unique : ∀ s t, d s < level → d t < level → s = t

variable {cap level : ℤ} {weight : τ → ℤ} {present : τ → Prop} {winner : τ} {d d' : τ → ℤ}

/-- A level holds where the winner stands on it, or beats another tenant. -/
theorem Level.round (h : Level level d) (hround : Round cap weight present winner d d')
    (hcap : level ≤ cap) (hweight : ∀ t, 1 ≤ weight t) (habsent : ∀ t, ¬ present t → level ≤ d t)
    (hwinner : level ≤ d winner ∨ ∃ loser, loser ≠ winner ∧ d loser ≤ d winner) :
    Level level d' := by
  have hstands : level ≤ d winner := by
    rcases hwinner with hle | ⟨loser, hne, hle⟩
    · exact hle
    · by_contra hlow
      have hloser : d loser < level := by omega
      exact hne (h.unique loser winner hloser (by omega))
  have hothers : ∀ t, t ≠ winner → level ≤ d' t := by
    intro t ht
    by_cases hpresent : present t
    · rw [hround.credited t hpresent ht]
      have hle := h.le t
      have hw := hweight t
      exact le_min (by omega) hcap
    · rw [hround.absent t hpresent ht]
      exact habsent t hpresent
  constructor
  · intro t
    by_cases ht : t = winner
    · rw [ht, hround.paid]
      omega
    · have hle := hothers t ht
      omega
  · intro s t hs ht
    have hs' : s = winner := by
      by_contra hne
      have hle := hothers s hne
      omega
    have ht' : t = winner := by
      by_contra hne
      have hle := hothers t hne
      omega
    rw [hs', ht']

theorem Round.le (hround : Round cap weight present winner d d') {hi : ℤ} (hcap : cap ≤ hi)
    (h : ∀ t, d t ≤ hi) (t : τ) : d' t ≤ hi := by
  by_cases ht : t = winner
  · rw [ht, hround.paid]
    have hle := h winner
    omega
  · by_cases hpresent : present t
    · rw [hround.credited t hpresent ht]
      exact (min_le_right _ _).trans hcap
    · rw [hround.absent t hpresent ht]
      exact h t

/-- Every service of another tenant since its own last one has lifted a waiting tenant. -/
def Lifted (cap low : ℤ) (d : τ → ℤ) (passes : τ → ℕ) : Prop :=
  ∀ t, passes t = 0 ∨ d t ≤ cap ∧ low + passes t ≤ d t

/-- A round keeps that, where those who are passed over have room below the cap. -/
theorem Lifted.round {low : ℤ} {passes passes' : τ → ℕ} (h : Lifted cap low d passes)
    (waits : τ → Prop) (hround : Round cap weight present winner d d')
    (hweight : ∀ t, 1 ≤ weight t) (hlow : ∀ t, low ≤ d t)
    (hwaits : ∀ t, waits t → t ≠ winner → present t ∧ d t < cap)
    (hwinner : passes' winner = 0)
    (hpassed : ∀ t, t ≠ winner → waits t → passes' t = passes t + 1)
    (hidle : ∀ t, t ≠ winner → ¬ waits t → passes' t = passes t) :
    Lifted cap low d' passes' := by
  intro t
  by_cases ht : t = winner
  · exact Or.inl (ht ▸ hwinner)
  · have hw := hweight t
    have hl := hlow t
    by_cases hwait : waits t
    · obtain ⟨hpresent, hroom⟩ := hwaits t hwait ht
      right
      rw [hround.credited t hpresent ht, hpassed t ht hwait]
      have hlift : d t + 1 ≤ min (d t + weight t) cap := le_min (by omega) (by omega)
      refine ⟨min_le_right _ _, ?_⟩
      rcases h t with hzero | ⟨-, hle⟩
      · rw [hzero]
        push_cast
        omega
      · push_cast
        omega
    · rw [hidle t ht hwait]
      rcases h t with hzero | ⟨hle, hlift⟩
      · exact Or.inl hzero
      · right
        by_cases hpresent : present t
        · rw [hround.credited t hpresent ht]
          have hkeep : d t ≤ min (d t + weight t) cap := le_min (by omega) hle
          exact ⟨min_le_right _ _, hlift.trans hkeep⟩
        · rw [hround.absent t hpresent ht]
          exact ⟨hle, hlift⟩

end DeficitRoundRobin
