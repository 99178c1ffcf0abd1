import Mathlib.Data.List.Basic
import Mathlib.Data.List.Defs

/-! `List.toChunks`: the chunks make up the list, and chunks of two or more are fewer than the
elements of a list that has two. -/
namespace Chunks

variable {α : Type*}

theorem flatten_go {n : ℕ} (xs : List α) (acc : Array α) (done : Array (List α)) :
    (List.toChunks.go n xs acc done).flatten = done.toList.flatten ++ acc.toList ++ xs := by
  induction xs generalizing acc done with
  | nil => simp [List.toChunks.go]
  | cons x xs ih =>
    unfold List.toChunks.go
    split
    · simp [ih]
    · simp [ih]

theorem flatten_toChunks (n : ℕ) (xs : List α) : (xs.toChunks n).flatten = xs := by
  unfold List.toChunks
  split
  · rfl
  · simp
  · simp [flatten_go]

theorem length_go {n : ℕ} (hn : 1 ≤ n) (xs : List α) (acc : Array α) (done : Array (List α))
    (hpos : 1 ≤ acc.size) (hle : acc.size ≤ n) :
    (List.toChunks.go n xs acc done).length * n + 1 ≤
      done.size * n + acc.size + xs.length + n := by
  induction xs generalizing acc done with
  | nil =>
    simp only [List.toChunks.go, Array.length_toList, Array.size_push, List.length_nil]
    rw [Nat.add_mul]
    omega
  | cons x xs ih =>
    unfold List.toChunks.go
    split
    · rename_i hfull
      have hsize : acc.size = n := by simpa using hfull
      have h := ih ((Array.mkEmpty n).push x) (done.push acc.toList) (by simp) (by simpa using hn)
      have hone : ((Array.mkEmpty n).push x).size = 1 := by simp
      rw [hone, Array.size_push, Nat.add_mul] at h
      simp only [List.length_cons]
      omega
    · rename_i hroom
      have hsize : acc.size ≠ n := by simpa using hroom
      have h := ih (acc.push x) done (by simp) (by simp only [Array.size_push]; omega)
      simp only [Array.size_push, List.length_cons] at h ⊢
      omega

theorem length_toChunks_lt {n : ℕ} (hn : 2 ≤ n) {xs : List α} (hxs : 2 ≤ xs.length) :
    (xs.toChunks n).length < xs.length := by
  match xs, n with
  | [], _ => simp at hxs
  | x :: xs, n + 1 =>
    have hgo := length_go (n := n + 1) (by omega) xs #[x] #[] (by simp) (by simp)
    have hlength : ((x :: xs).toChunks (n + 1)).length
        = (List.toChunks.go (n + 1) xs #[x] #[]).length := rfl
    rw [hlength]
    simp only [List.length_cons, List.size_toArray, List.length_nil] at hgo hxs ⊢
    by_contra hge
    -- With `m` elements in chunks of `w` there are at most `(m + w - 1) / w` chunks.
    have hmany : (xs.length + 1) * (n + 1) ≤
        (List.toChunks.go (n + 1) xs #[x] #[]).length * (n + 1) :=
      Nat.mul_le_mul_right _ (Nat.not_lt.mp hge)
    have hwide : (xs.length + 1) * 2 ≤ (xs.length + 1) * (n + 1) := Nat.mul_le_mul_left _ hn
    have hlong : 2 * (n + 1) ≤ (xs.length + 1) * (n + 1) := Nat.mul_le_mul_right _ hxs
    omega

end Chunks
