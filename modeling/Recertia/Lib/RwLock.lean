import Mathlib.Data.List.Pairwise
import Mathlib.Logic.Relation
import Mathlib.Order.Basic
import Mathlib.Tactic.Common

/-! Shared and exclusive locks by name, with one owner for each hold, and clients that take them in
a fixed order: exclusion, and that every chain of waiting clients ends. -/
namespace RwLock

inductive LockMode
  | shared
  | exclusive
  deriving DecidableEq, Repr

/-- Only shared holds go together. -/
def LockMode.compatible : LockMode → LockMode → Bool
  | .shared, .shared => true
  | _, _ => false

theorem compatible_comm (m n : LockMode) : m.compatible n = n.compatible m := by
  cases m <;> cases n <;> rfl

structure Hold (L P : Type*) where
  lock : L
  owner : P
  mode : LockMode
  deriving DecidableEq, Repr

/-- The locks that are held, the newest first. -/
abbrev Locks (L P : Type*) := List (Hold L P)

variable {L P : Type*}

def acquire (locks : Locks L P) (p : P) (l : L) (m : LockMode) : Locks L P := ⟨l, p, m⟩ :: locks

theorem mem_acquire {locks : Locks L P} {p : P} {l : L} {m : LockMode} {h : Hold L P} :
    h ∈ acquire locks p l m ↔ h = ⟨l, p, m⟩ ∨ h ∈ locks := List.mem_cons

/-- Two holds of one lock are both shared. -/
def Sound (locks : Locks L P) : Prop :=
  locks.Pairwise fun a b => a.lock = b.lock → a.mode.compatible b.mode = true

theorem sound_nil : Sound ([] : Locks L P) := List.Pairwise.nil

/-- An exclusive hold is the only hold of its lock. -/
theorem Sound.unique {locks : Locks L P} (hs : Sound locks) {h k : Hold L P} (hh : h ∈ locks)
    (hk : k ∈ locks) (hl : h.lock = k.lock) (hm : h.mode = .exclusive) : h = k := by
  have hsymm : Std.Symm fun a b : Hold L P => a.lock = b.lock → a.mode.compatible b.mode = true :=
    ⟨fun a b hab hl => by
      rw [compatible_comm]
      exact hab hl.symm⟩
  by_contra hne
  have hcompatible := List.Pairwise.forall hs hh hk hne hl
  rw [hm] at hcompatible
  cases hcompatible

section Grants
variable [DecidableEq L]

def grants (locks : Locks L P) (l : L) (m : LockMode) : Bool :=
  locks.all fun h => !decide (h.lock = l) || m.compatible h.mode

theorem grants_iff {locks : Locks L P} {l : L} {m : LockMode} :
    grants locks l m = true ↔ ∀ h ∈ locks, h.lock = l → m.compatible h.mode = true := by
  unfold grants
  rw [List.all_eq_true]
  constructor
  · intro hall h hmem hl
    simpa [hl] using hall h hmem
  · intro hall h hmem
    by_cases hl : h.lock = l
    · simp [hl, hall h hmem hl]
    · simp [hl]

/-- What a request waits for. -/
theorem exists_blocker {locks : Locks L P} {l : L} {m : LockMode} (hg : grants locks l m = false) :
    ∃ h ∈ locks, h.lock = l ∧ m.compatible h.mode = false := by
  by_contra hnone
  have hgrants : grants locks l m = true := by
    apply grants_iff.mpr
    intro h hmem hl
    by_contra hm
    exact hnone ⟨h, hmem, hl, Bool.not_eq_true _ ▸ hm⟩
  rw [hgrants] at hg
  cases hg

theorem Sound.acquire {locks : Locks L P} {p : P} {l : L} {m : LockMode} (hs : Sound locks)
    (hg : grants locks l m = true) : Sound (RwLock.acquire locks p l m) := by
  apply List.Pairwise.cons _ hs
  intro h hmem hl
  exact grants_iff.mp hg h hmem hl.symm

end Grants

section Release
variable [DecidableEq P]

/-- What the end of a process drops. -/
def releaseAll (locks : Locks L P) (p : P) : Locks L P :=
  locks.filter fun h => !decide (h.owner = p)

theorem mem_releaseAll {locks : Locks L P} {p : P} {h : Hold L P} :
    h ∈ releaseAll locks p ↔ h ∈ locks ∧ h.owner ≠ p := by
  unfold releaseAll
  rw [List.mem_filter]
  simp only [Bool.not_eq_true', decide_eq_false_iff_not, ne_eq]

theorem Sound.releaseAll {locks : Locks L P} (hs : Sound locks) (p : P) :
    Sound (RwLock.releaseAll locks p) := hs.sublist List.filter_sublist

end Release

/-! ### Waiting -/

/-- A client waits for a lock, in a mode that a hold of the other excludes. -/
def Blocks (locks : Locks L P) (waits : P → Option (L × LockMode)) (p q : P) : Prop :=
  ∃ l m, waits p = some (l, m) ∧
    ∃ h ∈ locks, h.owner = q ∧ h.lock = l ∧ m.compatible h.mode = false

/-- Whoever waits holds only locks of a lower rank. -/
def Ordered (locks : Locks L P) (waits : P → Option (L × LockMode)) (rank : L → ℕ) : Prop :=
  ∀ p l m, waits p = some (l, m) → ∀ h ∈ locks, h.owner = p → rank h.lock < rank l

variable {locks : Locks L P} {waits : P → Option (L × LockMode)} {rank : L → ℕ}

/-- Along the relation the rank of the awaited lock rises. -/
theorem Ordered.rank_lt (ho : Ordered locks waits rank) {p q : P} {l k : L} {m n : LockMode}
    (hp : waits p = some (l, m)) (hq : waits q = some (k, n)) (hpq : Blocks locks waits p q) :
    rank l < rank k := by
  obtain ⟨l', m', hp', h, hmem, howner, hlock, -⟩ := hpq
  rw [hp] at hp'
  cases hp'
  rw [← hlock]
  exact ho q k n hq h hmem howner

theorem Ordered.rank_lt_of_transGen (ho : Ordered locks waits rank) {p q : P}
    (hpq : Relation.TransGen (Blocks locks waits) p q) :
    ∀ {l k : L} {m n : LockMode}, waits p = some (l, m) → waits q = some (k, n) →
      rank l < rank k := by
  induction hpq with
  | single h => exact fun hp hq => ho.rank_lt hp hq h
  | tail hpr hrq ih =>
    intro l k m n hp hq
    have hblocks := hrq
    obtain ⟨j, i, hr, -⟩ := hrq
    exact Nat.lt_trans (ih hp hr) (ho.rank_lt hr hq hblocks)

/-- Nobody waits for itself through others. -/
theorem Ordered.acyclic (ho : Ordered locks waits rank) (p : P) :
    ¬ Relation.TransGen (Blocks locks waits) p p := by
  intro hpp
  have hwaits : ∃ lm, waits p = some lm := by
    rcases Relation.TransGen.head'_iff.mp hpp with ⟨q, ⟨l, m, hp, -⟩, -⟩
    exact ⟨_, hp⟩
  obtain ⟨⟨l, m⟩, hp⟩ := hwaits
  exact Nat.lt_irrefl _ (ho.rank_lt_of_transGen hpp hp hp)

/-- Behind every client there is one that does not wait, or whose request is granted. -/
theorem Ordered.exists_free [DecidableEq L] (ho : Ordered locks waits rank) {bound : ℕ}
    (hbound : ∀ l, rank l ≤ bound) (p : P) :
    ∃ q, Relation.ReflTransGen (Blocks locks waits) p q ∧
      ∀ l m, waits q = some (l, m) → grants locks l m = true := by
  -- The induction is on the room above the rank of the awaited lock.
  have hchain : ∀ (n : ℕ) (p : P), (∀ l m, waits p = some (l, m) → bound < rank l + n) →
      ∃ q, Relation.ReflTransGen (Blocks locks waits) p q ∧
        ∀ l m, waits q = some (l, m) → grants locks l m = true := by
    intro n
    induction n with
    | zero =>
      intro p hp
      refine ⟨p, .refl, fun l m hwait => ?_⟩
      have hlt := hp l m hwait
      have hle := hbound l
      omega
    | succ n ih =>
      intro p hp
      by_cases hfree : ∀ l m, waits p = some (l, m) → grants locks l m = true
      · exact ⟨p, .refl, hfree⟩
      · simp only [not_forall, Bool.not_eq_true] at hfree
        obtain ⟨l, m, hwait, hnot⟩ := hfree
        obtain ⟨h, hmem, hl, hm⟩ := exists_blocker hnot
        have hblocks : Blocks locks waits p h.owner := ⟨l, m, hwait, h, hmem, rfl, hl, hm⟩
        obtain ⟨q, hq, hgrants⟩ := ih h.owner fun k i hk => by
          have hlt := ho.rank_lt hwait hk hblocks
          have hroom := hp l m hwait
          omega
        exact ⟨q, .head hblocks hq, hgrants⟩
  exact hchain (bound + 1) p fun l m _ => by omega

end RwLock
