import Mathlib.Data.Rat.Defs
import Recertia.Lib.Table

/-! Maps whose entries expire some time after they were set. -/

/-- Entries with the time at which they were set. -/
structure TtlCache (K V : Type*) where
  items : Table K (ℚ × V)

namespace TtlCache
variable {K V : Type*}

def empty : TtlCache K V := ⟨.empty⟩

variable [DecidableEq K]

/-- An expired entry is dropped. -/
def get (cache : TtlCache K V) (ttl now : ℚ) (k : K) : Option V × TtlCache K V :=
  match cache.items.get? k with
  | none => (none, cache)
  | some (storedAt, v) =>
    if now - storedAt > ttl then (none, ⟨cache.items.delete fun k' _ => k' = k⟩)
    else (some v, cache)

def set (cache : TtlCache K V) (now : ℚ) (k : K) (v : V) : TtlCache K V :=
  ⟨cache.items.upsert k (now, v) fun _ => (now, v)⟩

def dropIf (cache : TtlCache K V) (p : K → V → Bool) : TtlCache K V :=
  ⟨cache.items.delete fun k entry => p k entry.2⟩

/-- What holds of every entry, expired or not. -/
def Holds (P : K → V → Prop) (cache : TtlCache K V) : Prop :=
  ∀ k storedAt v, cache.items.get? k = some (storedAt, v) → P k v

variable {P Q : K → V → Prop} {cache : TtlCache K V}

theorem holds_empty : Holds P (empty : TtlCache K V) := by
  intro k storedAt v h
  cases h

theorem holds_delete (h : Holds P cache) (p : K → ℚ × V → Bool) :
    Holds P ⟨cache.items.delete p⟩ := by
  intro k storedAt v hv
  rw [Table.get?_delete] at hv
  exact h k storedAt v (Option.filter_eq_some_iff.mp hv).1

theorem get_holds (h : Holds P cache) (ttl now : ℚ) (k : K) :
    Holds P (cache.get ttl now k).2 ∧ ∀ v, (cache.get ttl now k).1 = some v → P k v := by
  unfold get
  cases hentry : cache.items.get? k with
  | none => exact ⟨h, fun v hv => by cases hv⟩
  | some entry =>
    obtain ⟨storedAt, v⟩ := entry
    dsimp only
    split
    · exact ⟨holds_delete h _, fun v hv => by cases hv⟩
    · refine ⟨h, fun w hw => ?_⟩
      rw [← Option.some.inj hw]
      exact h k storedAt v hentry

theorem set_holds (h : Holds P cache) (now : ℚ) {k : K} {v : V} (hv : P k v) :
    Holds P (cache.set now k v) := by
  intro k' storedAt w hw
  rw [set, Table.get?_upsert] at hw
  split at hw
  · rename_i hk
    have hentry : ((cache.items.get? k).map fun _ => (now, v)).getD (now, v) = (now, v) := by
      cases cache.items.get? k <;> rfl
    rw [hentry] at hw
    have hvw : v = w := congrArg Prod.snd (Option.some.inj hw)
    rw [hk, ← hvw]
    exact hv
  · exact h k' storedAt w hw

/-- What is not dropped is not what the predicate is about. -/
theorem dropIf_holds (h : Holds P cache) (p : K → V → Bool)
    (hPQ : ∀ k v, P k v → p k v = false → Q k v) : Holds Q (cache.dropIf p) := by
  intro k storedAt v hv
  rw [dropIf, Table.get?_delete] at hv
  obtain ⟨hentry, hkept⟩ := Option.filter_eq_some_iff.mp hv
  exact hPQ k v (h k storedAt v hentry) (by simpa using hkept)

end TtlCache
