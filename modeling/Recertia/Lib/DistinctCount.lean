import Mathlib.Data.Finset.Dedup
import Mathlib.Data.Finset.Card

/-! Counting distinct values with a bounded sample of those seen. -/
namespace DistinctCount

structure Tally (α : Type*) where
  count : ℕ := 0
  sample : List α := []

variable {α : Type*} [DecidableEq α]

/-- A value outside the sample counts as a new one. -/
def Tally.add (cap : ℕ) (t : Tally α) (a : α) : Tally α :=
  if a ∈ t.sample then t
  else { count := t.count + 1
         sample := if t.sample.length < cap then t.sample ++ [a] else t.sample }

/-- As long as the distinct values fit, the sample has all of them. -/
structure Counts (cap : ℕ) (t : Tally α) (seen : List α) : Prop where
  count : seen.toFinset.card ≤ cap → t.count = seen.toFinset.card
  length : seen.toFinset.card ≤ cap → t.sample.length = seen.toFinset.card
  mem : seen.toFinset.card ≤ cap → ∀ a, a ∈ t.sample ↔ a ∈ seen

theorem Counts.nil (cap : ℕ) : Counts cap (⟨0, []⟩ : Tally α) [] :=
  ⟨fun _ => rfl, fun _ => rfl, fun _ _ => Iff.rfl⟩

theorem toFinset_snoc (seen : List α) (a : α) :
    (seen ++ [a]).toFinset = insert a seen.toFinset := by
  ext b
  simp only [List.mem_toFinset, List.mem_append, List.mem_singleton, Finset.mem_insert]
  exact or_comm

theorem Counts.add {cap : ℕ} {t : Tally α} {seen : List α} (h : Counts cap t seen) (a : α) :
    Counts cap (t.add cap a) (seen ++ [a]) := by
  by_cases hseen : a ∈ seen
  · have hsame : (seen ++ [a]).toFinset = seen.toFinset := by
      rw [toFinset_snoc, Finset.insert_eq_of_mem (List.mem_toFinset.mpr hseen)]
    have hadd : seen.toFinset.card ≤ cap → t.add cap a = t := fun hfits =>
      if_pos ((h.mem hfits a).mpr hseen)
    refine ⟨fun hfits => ?_, fun hfits => ?_, fun hfits b => ?_⟩ <;> rw [hsame] at hfits
    · rw [hadd hfits, hsame, h.count hfits]
    · rw [hadd hfits, hsame, h.length hfits]
    · rw [hadd hfits, h.mem hfits, List.mem_append, List.mem_singleton]
      constructor
      · exact Or.inl
      · rintro (hb | rfl)
        · exact hb
        · exact hseen
  · have hcard : (seen ++ [a]).toFinset.card = seen.toFinset.card + 1 := by
      rw [toFinset_snoc, Finset.card_insert_of_notMem fun hmem => hseen (List.mem_toFinset.mp hmem)]
    -- One more fits, so the sample has room.
    have hadd : seen.toFinset.card + 1 ≤ cap →
        t.add cap a = ⟨t.count + 1, t.sample ++ [a]⟩ := by
      intro hroom
      have hfits : seen.toFinset.card ≤ cap := by omega
      have hlength := h.length hfits
      rw [Tally.add, if_neg fun hmem => hseen ((h.mem hfits a).mp hmem), if_pos (by omega)]
    refine ⟨fun hfits => ?_, fun hfits => ?_, fun hfits b => ?_⟩ <;> rw [hcard] at hfits
    · rw [hadd hfits, hcard, h.count (by omega)]
    · have hlength := h.length (by omega)
      rw [hadd hfits, hcard, List.length_append, List.length_singleton, hlength]
    · have hmem := h.mem (by omega) b
      rw [hadd hfits, List.mem_append, List.mem_append, hmem]

end DistinctCount
