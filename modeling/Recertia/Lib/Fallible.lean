import Mathlib.Data.List.Forall2
import Mathlib.Tactic.Common

/-! How a sequence of fallible computations returns or fails. -/
namespace Fallible

universe u v
variable {ε : Type u} {α β : Type v}

theorem bind_eq_ok {x : Except ε α} {f : α → Except ε β} {b : β} :
    (x >>= f) = .ok b ↔ ∃ a, x = .ok a ∧ f a = .ok b := by
  cases x with
  | error e => simp [bind, Except.bind]
  | ok a => simp [bind, Except.bind]

theorem bind_eq_error {x : Except ε α} {f : α → Except ε β} {e : ε} :
    (x >>= f) = .error e ↔ x = .error e ∨ ∃ a, x = .ok a ∧ f a = .error e := by
  cases x with
  | error e' => simp [bind, Except.bind]
  | ok a => simp [bind, Except.bind]

theorem bind_isOk {x : Except ε α} {f : α → Except ε β} :
    (∃ b, (x >>= f) = .ok b) ↔ ∃ a, x = .ok a ∧ ∃ b, f a = .ok b := by
  simp only [bind_eq_ok]
  exact ⟨fun ⟨b, a, ha, hb⟩ => ⟨a, ha, b, hb⟩, fun ⟨a, ha, b, hb⟩ => ⟨b, a, ha, hb⟩⟩

/-- A check that raises. -/
theorem unless_eq_ok {c : Prop} [Decidable c] {e : ε} {f : PUnit → Except ε β} {b : β} :
    (if c then throw e >>= f else f ⟨⟩) = .ok b ↔ ¬ c ∧ f ⟨⟩ = .ok b := by
  split
  · rename_i hc
    simp [hc, bind, Except.bind, throw, throwThe, MonadExceptOf.throw]
  · rename_i hc
    simp [hc]

theorem pure_eq_ok {a b : α} : (pure a : Except ε α) = .ok b ↔ a = b := by
  simp [pure, Except.pure]

/-- A list of computations returns exactly when each of them does. -/
theorem mapM_isOk {f : α → Except ε β} {xs : List α} :
    (∃ ys, xs.mapM f = .ok ys) ↔ ∀ x ∈ xs, ∃ y, f x = .ok y := by
  induction xs with
  | nil => exact ⟨fun _ x hx => (List.not_mem_nil hx).elim, fun _ => ⟨[], rfl⟩⟩
  | cons x xs ih =>
    rw [List.mapM_cons, bind_isOk, List.forall_mem_cons, ← ih]
    constructor
    · rintro ⟨y, hy, ys, hys⟩
      obtain ⟨zs, hzs, -⟩ := bind_eq_ok.mp hys
      exact ⟨⟨y, hy⟩, zs, hzs⟩
    · rintro ⟨⟨y, hy⟩, zs, hzs⟩
      exact ⟨y, hy, y :: zs, bind_eq_ok.mpr ⟨zs, hzs, rfl⟩⟩

/-- A list of computations returns the list of what each of them returns. -/
theorem mapM_eq_ok {f : α → Except ε β} {xs : List α} {ys : List β} :
    xs.mapM f = .ok ys ↔ List.Forall₂ (fun x y => f x = .ok y) xs ys := by
  induction xs generalizing ys with
  | nil =>
    rw [List.mapM_nil, pure_eq_ok, List.forall₂_nil_left_iff]
    exact eq_comm
  | cons x xs ih =>
    rw [List.mapM_cons, bind_eq_ok, List.forall₂_cons_left_iff]
    constructor
    · rintro ⟨y, hy, hrest⟩
      obtain ⟨zs, hzs, heq⟩ := bind_eq_ok.mp hrest
      exact ⟨y, zs, hy, ih.mp hzs, (pure_eq_ok.mp heq).symm⟩
    · rintro ⟨y, zs, hy, hzs, rfl⟩
      exact ⟨y, hy, bind_eq_ok.mpr ⟨zs, ih.mpr hzs, rfl⟩⟩

/-- Some result is as `P` says exactly when some computation returns one. -/
theorem mapM_exists {f : α → Except ε β} {xs : List α} {ys : List β} (h : xs.mapM f = .ok ys)
    (P : β → Prop) : (∃ y ∈ ys, P y) ↔ ∃ x ∈ xs, ∃ y, f x = .ok y ∧ P y := by
  have hall := mapM_eq_ok.mp h
  clear h
  induction hall with
  | nil => simp
  | @cons x y xs ys hxy _ ih =>
    simp only [List.mem_cons, exists_eq_or_imp, ih]
    have hfirst : P y ↔ ∃ z, f x = .ok z ∧ P z := by
      constructor
      · exact fun hy => ⟨y, hxy, hy⟩
      · rintro ⟨z, hz, hP⟩
        rw [hxy] at hz
        rw [Except.ok.inj hz]
        exact hP
    rw [hfirst]

theorem mapM_congr {f g : α → Except ε β} {xs : List α} (h : ∀ x ∈ xs, f x = g x) :
    xs.mapM f = xs.mapM g := by
  induction xs with
  | nil => rfl
  | cons x xs ih =>
    rw [List.mapM_cons, List.mapM_cons, h x List.mem_cons_self,
      ih fun y hy => h y (List.mem_cons_of_mem x hy)]

/-- A fold of computations returns exactly when each of them does, where an invariant of what is
behind and what is to come decides that of each. -/
theorem foldlM_isOk {f : β → α → Except ε β} {I : β → List α → Prop} {returns : α → Prop}
    (hstep : ∀ b x xs, I b (x :: xs) → ((∃ c, f b x = .ok c) ↔ returns x))
    (hinv : ∀ b x xs c, I b (x :: xs) → f b x = .ok c → I c xs) {b : β} {xs : List α}
    (hb : I b xs) : (∃ c, xs.foldlM f b = .ok c) ↔ ∀ x ∈ xs, returns x := by
  induction xs generalizing b with
  | nil => exact ⟨fun _ x hx => (List.not_mem_nil hx).elim, fun _ => ⟨b, rfl⟩⟩
  | cons x xs ih =>
    rw [List.foldlM_cons, bind_isOk, List.forall_mem_cons]
    constructor
    · rintro ⟨c, hc, hrest⟩
      exact ⟨(hstep b x xs hb).mp ⟨c, hc⟩, (ih (hinv b x xs c hb hc)).mp hrest⟩
    · rintro ⟨hx, hxs⟩
      obtain ⟨c, hc⟩ := (hstep b x xs hb).mpr hx
      exact ⟨c, hc, (ih (hinv b x xs c hb hc)).mpr hxs⟩

theorem foldlM_invariant {f : β → α → Except ε β} {I : β → List α → Prop}
    (hinv : ∀ b x xs c, I b (x :: xs) → f b x = .ok c → I c xs) {b c : β} {xs : List α}
    (hb : I b xs) (h : xs.foldlM f b = .ok c) : I c [] := by
  induction xs generalizing b with
  | nil =>
    cases h
    exact hb
  | cons x xs ih =>
    rw [List.foldlM_cons, bind_eq_ok] at h
    obtain ⟨d, hd, hrest⟩ := h
    exact ih (hinv b x xs d hb hd) hrest

theorem mapError_eq_ok {ε' : Type u} {x : Except ε α} {f : ε → ε'} {a : α} :
    x.mapError f = .ok a ↔ x = .ok a := by
  cases x with
  | error e => simp [Except.mapError]
  | ok b => simp [Except.mapError]

end Fallible
