import Mathlib.Data.List.Basic

/-! Merging partial maps: a family that never gives one key two values has a union, which neither
depends on the order of the family nor on how it is grouped. -/
namespace PartialMerge

variable {K V : Type*}

/-- No two maps of the family give one key different values. -/
def Consistent (fs : List (K → Option V)) : Prop :=
  ∀ f ∈ fs, ∀ g ∈ fs, ∀ k a b, f k = some a → g k = some b → a = b

/-- The value of the first map that has one. -/
def union (fs : List (K → Option V)) : K → Option V := fun k => fs.findSome? fun f => f k

theorem exists_of_union {fs : List (K → Option V)} {k : K} {a : V} (h : union fs k = some a) :
    ∃ f ∈ fs, f k = some a :=
  List.exists_of_findSome?_eq_some h

theorem union_eq_none {fs : List (K → Option V)} {k : K} :
    union fs k = none ↔ ∀ f ∈ fs, f k = none :=
  List.findSome?_eq_none_iff

theorem Consistent.union_eq_some {fs : List (K → Option V)} (h : Consistent fs) {k : K} {a : V} :
    union fs k = some a ↔ ∃ f ∈ fs, f k = some a := by
  constructor
  · exact exists_of_union
  · rintro ⟨f, hf, ha⟩
    cases hunion : union fs k with
    | none =>
      rw [union_eq_none.mp hunion f hf] at ha
      cases ha
    | some b =>
      obtain ⟨g, hg, hb⟩ := exists_of_union hunion
      rw [h f hf g hg k a b ha hb]

theorem consistent_of_length_le_one {fs : List (K → Option V)} (h : fs.length ≤ 1) :
    Consistent fs := by
  intro f hf g hg k a b ha hb
  match fs, h with
  | [only], _ =>
    rw [List.mem_singleton.mp hf] at ha
    rw [List.mem_singleton.mp hg, ha] at hb
    exact Option.some.inj hb

theorem consistent_congr {fs gs : List (K → Option V)} (h : ∀ f, f ∈ fs ↔ f ∈ gs) :
    Consistent fs ↔ Consistent gs := by
  simp only [Consistent, h]

/-- The union depends on the members of the family only. -/
theorem Consistent.union_congr {fs gs : List (K → Option V)} (hfs : Consistent fs)
    (h : ∀ f, f ∈ fs ↔ f ∈ gs) : union fs = union gs := by
  have hgs : Consistent gs := (consistent_congr h).mp hfs
  funext k
  apply Option.ext
  intro a
  rw [hfs.union_eq_some, hgs.union_eq_some]
  simp only [h]

/-- Taking the maps along a renaming of the keys takes their union along it. -/
theorem union_comp {J : Type*} (fs : List (K → Option V)) (g : J → K) (j : J) :
    union (fs.map fun f => f ∘ g) j = union fs (g j) := by
  unfold union
  rw [List.findSome?_map]
  rfl

/-- The union of the unions of the groups is the union of the whole family. -/
theorem union_flatten (groups : List (List (K → Option V))) :
    union (groups.map union) = union groups.flatten := by
  funext k
  induction groups with
  | nil => rfl
  | cons group groups ih =>
    unfold union at ih ⊢
    rw [List.map_cons, List.findSome?_cons, List.flatten_cons, List.findSome?_append, ih]
    dsimp only
    cases group.findSome? (fun f => f k) with
    | none => rfl
    | some a => rfl

/-- A conflict of the family is one inside a group or one between the unions of two groups. -/
theorem consistent_flatten {groups : List (List (K → Option V))} :
    Consistent groups.flatten ↔
      (∀ group ∈ groups, Consistent group) ∧ Consistent (groups.map union) := by
  constructor
  · intro h
    have hmem {group : List (K → Option V)} (hgroup : group ∈ groups) {f : K → Option V}
        (hf : f ∈ group) : f ∈ groups.flatten := List.mem_flatten.mpr ⟨group, hgroup, hf⟩
    constructor
    · intro group hgroup f hf g hg
      exact h f (hmem hgroup hf) g (hmem hgroup hg)
    · intro u hu v hv k a b ha hb
      obtain ⟨first, hfirst, rfl⟩ := List.mem_map.mp hu
      obtain ⟨second, hsecond, rfl⟩ := List.mem_map.mp hv
      obtain ⟨f, hf, hfa⟩ := exists_of_union ha
      obtain ⟨g, hg, hgb⟩ := exists_of_union hb
      exact h f (hmem hfirst hf) g (hmem hsecond hg) k a b hfa hgb
  · rintro ⟨hgroups, hunions⟩ f hf g hg k a b ha hb
    obtain ⟨first, hfirst, hf⟩ := List.mem_flatten.mp hf
    obtain ⟨second, hsecond, hg⟩ := List.mem_flatten.mp hg
    -- Inside a group the union has the value of each of its maps.
    have hfirstUnion := (hgroups first hfirst).union_eq_some.mpr ⟨f, hf, ha⟩
    have hsecondUnion := (hgroups second hsecond).union_eq_some.mpr ⟨g, hg, hb⟩
    exact hunions _ (List.mem_map_of_mem hfirst) _ (List.mem_map_of_mem hsecond) k a b
      hfirstUnion hsecondUnion

end PartialMerge
