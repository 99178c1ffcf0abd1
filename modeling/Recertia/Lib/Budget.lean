import Mathlib.Data.List.Dedup
import Mathlib.Data.List.Induction
import Mathlib.Data.List.Perm.Subperm
import Mathlib.Tactic.Common

/-! A capped work loop: keys are visited in turn, those that need it are marked once, and the loop
stops when its marks are used up. The keys come in groups, and the groups in items. -/
namespace Budget

/-- The marks that are left, and the keys that have been marked. -/
structure Marks (K : Type*) where
  left : ℕ
  marked : List K := []

variable {K ι : Type*} [DecidableEq K] (m : K → Bool)

def Marks.mark (s : Marks K) (k : K) : Marks K :=
  if m k = true ∧ k ∉ s.marked then ⟨s.left - 1, s.marked ++ [k]⟩ else s

def visit : List K → Marks K → Marks K
  | [], s => s
  | k :: ks, s => if s.left = 0 then s else visit ks (s.mark m k)

/-- How many marks the keys need. -/
def need (ks : List K) : ℕ := (ks.filter m).dedup.length

/-- The groups of an item, and whether the marks are used up before its last group. -/
def visitGroups : List (List K) → Marks K → Marks K × Bool
  | [], s => (s, false)
  | g :: gs, s => if s.left = 0 then (s, true) else visitGroups gs (visit m g s)

/-- The items, and those that are left over. -/
def visitItems (groups : ι → List (List K)) : List ι → Marks K → Marks K × List ι
  | [], s => (s, [])
  | i :: is, s =>
    if s.left = 0 then
      let rest := visitItems groups is s
      (rest.1, i :: rest.2)
    else
      let here := visitGroups m (groups i) s
      let rest := visitItems groups is here.1
      (rest.1, if here.2 then i :: rest.2 else rest.2)

variable {m}

theorem visit_of_left_eq_zero {s : Marks K} (h : s.left = 0) (ks : List K) : visit m ks s = s := by
  cases ks with
  | nil => rfl
  | cons k ks => rw [visit, if_pos h]

theorem visit_append (ks ls : List K) (s : Marks K) :
    visit m (ks ++ ls) s = visit m ls (visit m ks s) := by
  induction ks generalizing s with
  | nil => rfl
  | cons k ks ih =>
    rw [List.cons_append, visit, visit]
    split
    · rename_i hleft
      exact (visit_of_left_eq_zero hleft ls).symm
    · exact ih _

theorem visit_snoc (ks : List K) (k : K) (s : Marks K) :
    visit m (ks ++ [k]) s =
      if (visit m ks s).left = 0 then visit m ks s else (visit m ks s).mark m k := by
  rw [visit_append, visit]
  rfl

theorem mem_mark {s : Marks K} {k k' : K} :
    k' ∈ (s.mark m k).marked ↔ k' ∈ s.marked ∨ (m k = true ∧ k' = k) := by
  unfold Marks.mark
  split
  · rename_i hnew
    rw [List.mem_append, List.mem_singleton]
    constructor
    · rintro (hold | heq)
      · exact Or.inl hold
      · exact Or.inr ⟨hnew.1, heq⟩
    · rintro (hold | ⟨-, heq⟩)
      · exact Or.inl hold
      · exact Or.inr heq
  · rename_i hnot
    constructor
    · exact Or.inl
    · rintro (hold | ⟨hm, rfl⟩)
      · exact hold
      · by_contra hnew
        exact hnot ⟨hm, hnew⟩

theorem marked_mono (ks : List K) {s : Marks K} {k : K} (h : k ∈ s.marked) :
    k ∈ (visit m ks s).marked := by
  induction ks generalizing s with
  | nil => exact h
  | cons l ks ih =>
    rw [visit]
    split
    · exact h
    · exact ih (mem_mark.mpr (Or.inl h))

/-- What a visit with `cap` marks has done: it marks each key that needs it once, and all of them
unless it has used up its marks. -/
structure Visited (m : K → Bool) (cap : ℕ) (ks : List K) (s : Marks K) : Prop where
  nodup : s.marked.Nodup
  sound : ∀ k ∈ s.marked, m k = true ∧ k ∈ ks
  total : s.left + s.marked.length = cap
  complete : 0 < s.left → ∀ k ∈ ks, m k = true → k ∈ s.marked

theorem Visited.snoc {cap : ℕ} {ks : List K} {s : Marks K} (h : Visited m cap ks s)
    (hleft : s.left ≠ 0) (k : K) : Visited m cap (ks ++ [k]) (s.mark m k) := by
  have hpos : 0 < s.left := Nat.pos_of_ne_zero hleft
  refine ⟨?_, fun l hl => ?_, ?_, fun _ l hl hm => ?_⟩
  · unfold Marks.mark
    split
    · rename_i hnew
      exact List.nodup_append_comm.mp (List.nodup_cons.mpr ⟨hnew.2, h.nodup⟩)
    · exact h.nodup
  · rcases mem_mark.mp hl with hold | ⟨hm, rfl⟩
    · exact ⟨(h.sound l hold).1, List.mem_append_left _ (h.sound l hold).2⟩
    · exact ⟨hm, List.mem_append_right _ (List.mem_singleton_self _)⟩
  · have htotal := h.total
    unfold Marks.mark
    split
    · simp only [List.length_append, List.length_singleton]
      omega
    · exact htotal
  · rcases List.mem_append.mp hl with hl | hl
    · exact mem_mark.mpr (Or.inl (h.complete hpos l hl hm))
    · have heq : l = k := List.mem_singleton.mp hl
      exact mem_mark.mpr (Or.inr ⟨heq ▸ hm, heq⟩)

theorem visited (m : K → Bool) (cap : ℕ) (ks : List K) : Visited m cap ks (visit m ks ⟨cap, []⟩) := by
  induction ks using List.reverseRecOn with
  | nil => exact ⟨List.nodup_nil, fun k hk => (by cases hk), rfl, fun _ k hk => (by cases hk)⟩
  | append_singleton ks k ih =>
    rw [visit_snoc]
    split
    · rename_i hleft
      refine ⟨ih.nodup, fun l hl => ?_, ih.total, fun hpos => ?_⟩
      · exact ⟨(ih.sound l hl).1, List.mem_append_left _ (ih.sound l hl).2⟩
      · omega
    · rename_i hleft
      exact ih.snoc hleft k

theorem need_mono {ks ls : List K} (h : ∀ k ∈ ks, k ∈ ls) : need m ks ≤ need m ls := by
  apply List.Subperm.length_le
  apply List.Nodup.subperm (List.nodup_dedup _)
  intro k hk
  rw [List.mem_dedup, List.mem_filter] at hk ⊢
  exact ⟨h k hk.1, hk.2⟩

/-- The marks are used up exactly when the keys need that many. -/
theorem left_eq_zero_iff (cap : ℕ) (ks : List K) :
    (visit m ks ⟨cap, []⟩).left = 0 ↔ cap ≤ need m ks := by
  have hvisited := visited m cap ks
  have htotal := hvisited.total
  have hle : (visit m ks ⟨cap, []⟩).marked.length ≤ need m ks := by
    apply List.Subperm.length_le
    apply List.Nodup.subperm hvisited.nodup
    intro k hk
    rw [List.mem_dedup, List.mem_filter]
    exact ⟨(hvisited.sound k hk).2, (hvisited.sound k hk).1⟩
  constructor
  · intro hleft
    omega
  · intro hcap
    by_contra hleft
    have hge : need m ks ≤ (visit m ks ⟨cap, []⟩).marked.length := by
      apply List.Subperm.length_le
      apply List.Nodup.subperm (List.nodup_dedup _)
      intro k hk
      rw [List.mem_dedup, List.mem_filter] at hk
      exact hvisited.complete (Nat.pos_of_ne_zero hleft) k hk.1 hk.2
    omega

/-- A key is marked where it comes up before the marks are used up. -/
theorem mem_marked_iff {cap : ℕ} {ks : List K} {k : K} :
    k ∈ (visit m ks ⟨cap, []⟩).marked ↔
      m k = true ∧ ∃ pre post, ks = pre ++ k :: post ∧ need m pre < cap := by
  constructor
  · intro hk
    refine ⟨((visited m cap ks).sound k hk).1, ?_⟩
    induction ks using List.reverseRecOn with
    | nil => cases hk
    | append_singleton ks l ih =>
      have hcase : k ∈ (visit m ks ⟨cap, []⟩).marked ∨
          ((visit m ks ⟨cap, []⟩).left ≠ 0 ∧ k = l) := by
        rw [visit_snoc] at hk
        split at hk
        · exact Or.inl hk
        · rename_i hleft
          rcases mem_mark.mp hk with hold | ⟨-, heq⟩
          · exact Or.inl hold
          · exact Or.inr ⟨hleft, heq⟩
      rcases hcase with hold | ⟨hleft, rfl⟩
      · obtain ⟨pre, post, rfl, hneed⟩ := ih hold
        exact ⟨pre, post ++ [l], by simp, hneed⟩
      · rw [Ne, left_eq_zero_iff, Nat.not_le] at hleft
        exact ⟨ks, [], rfl, hleft⟩
  · rintro ⟨hm, pre, post, rfl, hneed⟩
    rw [visit_append, visit, if_neg]
    · exact marked_mono post (mem_mark.mpr (Or.inr ⟨hm, rfl⟩))
    · rw [left_eq_zero_iff]
      exact Nat.not_le.mpr hneed

theorem visitGroups_eq (gs : List (List K)) (s : Marks K) :
    (visitGroups m gs s).1 = visit m gs.flatten s ∧
      ((visitGroups m gs s).2 = true ↔
        gs ≠ [] ∧ (visit m gs.dropLast.flatten s).left = 0) := by
  induction gs generalizing s with
  | nil => exact ⟨rfl, by simp [visitGroups]⟩
  | cons g gs ih =>
    rw [visitGroups, List.flatten_cons]
    split
    · rename_i hleft
      refine ⟨(visit_of_left_eq_zero hleft _).symm, ?_⟩
      rw [visit_of_left_eq_zero hleft]
      exact iff_of_true rfl ⟨List.cons_ne_nil _ _, hleft⟩
    · rename_i hleft
      obtain ⟨hvisit, hover⟩ := ih (visit m g s)
      refine ⟨by rw [hvisit, visit_append], ?_⟩
      rw [hover]
      cases gs with
      | nil => exact iff_of_false (fun h => h.1 rfl) fun h => hleft h.2
      | cons g' gs =>
        rw [List.dropLast_cons_cons, List.flatten_cons, visit_append]
        simp

variable {groups : ι → List (List K)}

/-- Everything that items visit. -/
def keysOf (groups : ι → List (List K)) (is : List ι) : List K :=
  is.flatMap fun i => (groups i).flatten

omit [DecidableEq K] in
theorem keysOf_append (is js : List ι) :
    keysOf groups (is ++ js) = keysOf groups is ++ keysOf groups js := List.flatMap_append

omit [DecidableEq K] in
theorem keysOf_cons (i : ι) (is : List ι) :
    keysOf groups (i :: is) = (groups i).flatten ++ keysOf groups is := List.flatMap_cons

omit [DecidableEq K] in
theorem keysOf_nil : keysOf groups [] = [] := rfl

omit [DecidableEq K] in
theorem mem_keysOf {is : List ι} {k : K} :
    k ∈ keysOf groups is ↔ ∃ i ∈ is, k ∈ (groups i).flatten := List.mem_flatMap

/-- The marks are used up when an item comes up, or before its last group. -/
def Over (m : K → Bool) (groups : ι → List (List K)) (cap : ℕ) (before : List ι) (i : ι) : Prop :=
  cap ≤ need m (keysOf groups before) ∨ (groups i ≠ [] ∧
    cap ≤ need m (keysOf groups before ++ (groups i).dropLast.flatten))

theorem visitItems_marks (is : List ι) (s : Marks K) :
    (visitItems m groups is s).1 = visit m (keysOf groups is) s := by
  induction is generalizing s with
  | nil => rfl
  | cons i is ih =>
    rw [visitItems, keysOf_cons, visit_append]
    split
    · rename_i hleft
      rw [visit_of_left_eq_zero hleft]
      exact ih s
    · rw [← (visitGroups_eq (groups i) s).1]
      exact ih _

/-- The places in a list are its head and the places in its tail. -/
theorem exists_place_cons {i j : ι} {is : List ι} {P : List ι → Prop} :
    (∃ before after, j :: is = before ++ i :: after ∧ P before) ↔
      (i = j ∧ P []) ∨ ∃ before after, is = before ++ i :: after ∧ P (j :: before) := by
  constructor
  · rintro ⟨before, after, hsplit, hP⟩
    cases before with
    | nil =>
      obtain ⟨rfl, -⟩ := List.cons.inj hsplit
      exact Or.inl ⟨rfl, hP⟩
    | cons l before =>
      obtain ⟨rfl, hrest⟩ := List.cons.inj hsplit
      exact Or.inr ⟨before, after, hrest, hP⟩
  · rintro (⟨rfl, hP⟩ | ⟨before, after, rfl, hP⟩)
    · exact ⟨[], is, rfl, hP⟩
    · exact ⟨j :: before, after, rfl, hP⟩

/-- Which items are left over, by what comes before them. -/
theorem mem_visitItems (cap : ℕ) (done : List ι) {is : List ι} {i : ι} :
    i ∈ (visitItems m groups is (visit m (keysOf groups done) ⟨cap, []⟩)).2 ↔
      ∃ before after, is = before ++ i :: after ∧ Over m groups cap (done ++ before) i := by
  induction is generalizing done with
  | nil =>
    apply iff_of_false
    · intro hmem
      cases hmem
    · rintro ⟨before, after, hsplit, -⟩
      cases before <;> cases hsplit
  | cons j is ih =>
    rw [exists_place_cons, List.append_nil, visitItems]
    have hrest := ih (done ++ [j])
    simp only [List.append_assoc, List.singleton_append] at hrest
    have hkeys : keysOf groups (done ++ [j]) = keysOf groups done ++ (groups j).flatten := by
      rw [keysOf_append, keysOf_cons, keysOf_nil, List.append_nil]
    split
    · rename_i hleft
      have hsame : visit m (keysOf groups (done ++ [j])) ⟨cap, []⟩ =
          visit m (keysOf groups done) ⟨cap, []⟩ := by
        rw [hkeys, visit_append, visit_of_left_eq_zero hleft]
      rw [hsame] at hrest
      rw [List.mem_cons, hrest]
      apply or_congr_left
      constructor
      · rintro rfl
        exact ⟨rfl, Or.inl ((left_eq_zero_iff cap _).mp hleft)⟩
      · exact And.left
    · rename_i hleft
      obtain ⟨hvisit, hover⟩ := visitGroups_eq (m := m) (groups j)
        (visit m (keysOf groups done) ⟨cap, []⟩)
      rw [← visit_append, ← hkeys] at hvisit
      rw [← visit_append, left_eq_zero_iff] at hover
      rw [← hvisit] at hrest
      rw [left_eq_zero_iff] at hleft
      have hhead : (visitGroups m (groups j) (visit m (keysOf groups done) ⟨cap, []⟩)).2 = true ↔
          Over m groups cap done j :=
        hover.trans ⟨Or.inr, fun h => h.resolve_left hleft⟩
      dsimp only
      split
      · rename_i hover'
        rw [List.mem_cons, hrest]
        apply or_congr_left
        constructor
        · rintro rfl
          exact ⟨rfl, hhead.mp hover'⟩
        · exact And.left
      · rename_i hnot
        rw [hrest]
        constructor
        · exact Or.inr
        · rintro (⟨rfl, hover'⟩ | hmore)
          · exact absurd (hhead.mpr hover') hnot
          · exact hmore

theorem leftover_sublist (is : List ι) (s : Marks K) :
    (visitItems m groups is s).2.Sublist is := by
  induction is generalizing s with
  | nil => exact List.Sublist.refl _
  | cons i is ih =>
    rw [visitItems]
    split
    · exact (ih s).cons_cons i
    · dsimp only
      split
      · exact (ih _).cons_cons i
      · exact (ih _).cons i

omit [DecidableEq K] in
/-- The first item that visits a key. -/
theorem exists_first {is : List ι} {f : ι → List K} {k : K} (h : ∃ i ∈ is, k ∈ f i) :
    ∃ before i after, is = before ++ i :: after ∧ k ∈ f i ∧ ∀ j ∈ before, k ∉ f j := by
  induction is with
  | nil =>
    obtain ⟨i, hi, -⟩ := h
    cases hi
  | cons j is ih =>
    by_cases hj : k ∈ f j
    · exact ⟨[], j, is, rfl, hj, fun l hl => (by cases hl)⟩
    · obtain ⟨i, hi, hk⟩ := h
      have hmem : i ∈ is := by
        rcases List.mem_cons.mp hi with rfl | hmem
        · exact absurd hk hj
        · exact hmem
      obtain ⟨before, l, after, rfl, hl, hbefore⟩ := ih ⟨i, hmem, hk⟩
      refine ⟨j :: before, l, after, rfl, hl, fun l' hl' => ?_⟩
      rcases List.mem_cons.mp hl' with rfl | hl'
      · exact hj
      · exact hbefore l' hl'

/-- A key that needs a mark is visited by the items, is not marked, and no item that is left over
visits it. -/
structure Lost (m : K → Bool) (groups : ι → List (List K)) (cap : ℕ) (is : List ι) (k : K) :
    Prop where
  needed : m k = true
  visited : k ∈ keysOf groups is
  unmarked : k ∉ (visitItems m groups is ⟨cap, []⟩).1.marked
  gone : ∀ i ∈ (visitItems m groups is ⟨cap, []⟩).2, k ∉ (groups i).flatten

/-- The marks run out in the last group of an item, in front of the first place of a key that needs
one and that no later item visits. -/
def RunsOut (m : K → Bool) (groups : ι → List (List K)) (cap : ℕ) (is : List ι) (k : K) : Prop :=
  ∃ before i after gs pre post, is = before ++ i :: after ∧ groups i = gs ++ [pre ++ k :: post] ∧
    need m (keysOf groups before ++ gs.flatten) < cap ∧
    cap ≤ need m (keysOf groups before ++ gs.flatten ++ pre) ∧ m k = true ∧
    k ∉ keysOf groups before ++ gs.flatten ++ pre ∧ k ∉ keysOf groups after

omit [DecidableEq K] in
theorem mem_flatten_of_dropLast {gs : List (List K)} {k : K} (h : k ∈ gs.dropLast.flatten) :
    k ∈ gs.flatten := by
  rw [List.mem_flatten] at h ⊢
  obtain ⟨g, hg, hk⟩ := h
  exact ⟨g, List.dropLast_subset _ hg, hk⟩

/-- What is left over, from the start. -/
theorem mem_leftover {cap : ℕ} {is : List ι} {i : ι} :
    i ∈ (visitItems m groups is ⟨cap, []⟩).2 ↔
      ∃ before after, is = before ++ i :: after ∧ Over m groups cap before i :=
  mem_visitItems cap []

/-- Items are left over when the marks are used up. -/
theorem length_marked_of_leftover {cap : ℕ} {is : List ι} {i : ι}
    (h : i ∈ (visitItems m groups is ⟨cap, []⟩).2) :
    (visitItems m groups is ⟨cap, []⟩).1.marked.length = cap := by
  obtain ⟨before, after, rfl, hover⟩ := mem_leftover.mp h
  have hcap : cap ≤ need m (keysOf groups (before ++ i :: after)) := by
    rw [keysOf_append, keysOf_cons]
    rcases hover with hover | ⟨-, hover⟩
    · exact Nat.le_trans hover (need_mono fun l hl => List.mem_append_left _ hl)
    · refine Nat.le_trans hover (need_mono fun l hl => ?_)
      rcases List.mem_append.mp hl with hl | hl
      · exact List.mem_append_left _ hl
      · exact List.mem_append_right _ (List.mem_append_left _ (mem_flatten_of_dropLast hl))
  have hleft := (left_eq_zero_iff cap _).mpr hcap
  have htotal := (visited m cap (keysOf groups (before ++ i :: after))).total
  rw [visitItems_marks]
  omega

omit [DecidableEq K] in
/-- Two places in a list: one is before the other, or they are the same. -/
theorem places {i j : ι} {before after before' after' : List ι}
    (h : before ++ i :: after = before' ++ j :: after') :
    (∃ mid, before = before' ++ j :: mid) ∨ (before = before' ∧ i = j) ∨ j ∈ after := by
  rcases List.append_eq_append_iff.mp h with ⟨mid, rfl, htail⟩ | ⟨mid, rfl, htail⟩
  · cases mid with
    | nil =>
      obtain ⟨hij, -⟩ := List.cons.inj htail
      exact Or.inr (Or.inl ⟨(List.append_nil _).symm, hij⟩)
    | cons l mid =>
      obtain ⟨-, hafter⟩ := List.cons.inj htail
      exact Or.inr (Or.inr (hafter ▸ List.mem_append_right _ List.mem_cons_self))
  · cases mid with
    | nil =>
      obtain ⟨hij, -⟩ := List.cons.inj htail
      exact Or.inr (Or.inl ⟨List.append_nil _, hij.symm⟩)
    | cons l mid =>
      obtain ⟨rfl, -⟩ := List.cons.inj htail
      exact Or.inl ⟨mid, rfl⟩

theorem runsOut_of_lost {cap : ℕ} {is : List ι} {k : K} (h : Lost m groups cap is k) :
    RunsOut m groups cap is k := by
  obtain ⟨hneeded, hvisited, hunmarked, hgone⟩ := h
  -- The first place of the key: the item, the group in it, and the place in the group.
  obtain ⟨before, i, after, rfl, hi, hbefore⟩ := exists_first (mem_keysOf.mp hvisited)
  obtain ⟨gs, g, gs', hgroups, hg, hgs⟩ :=
    exists_first (f := fun g : List K => g) (List.mem_flatten.mp hi)
  obtain ⟨pre, post, rfl, hpre⟩ := List.eq_append_cons_of_mem hg
  have hfirst : k ∉ keysOf groups before ++ gs.flatten ++ pre := by
    rw [List.mem_append, List.mem_append, mem_keysOf, List.mem_flatten]
    rintro ((⟨j, hj, hk⟩ | ⟨g, hg, hk⟩) | hk)
    · exact hbefore j hj hk
    · exact hgs g hg hk
    · exact hpre hk
  have hout : cap ≤ need m (keysOf groups before ++ gs.flatten ++ pre) := by
    by_contra hroom
    apply hunmarked
    rw [visitItems_marks, mem_marked_iff]
    refine ⟨hneeded, _, post ++ gs'.flatten ++ keysOf groups after, ?_, Nat.not_le.mp hroom⟩
    simp [keysOf_append, keysOf_cons, hgroups]
  have hnot : ¬ Over m groups cap before i := fun hover =>
    hgone i (mem_leftover.mpr ⟨before, after, rfl, hover⟩) hi
  have hlast : gs' = [] := by
    cases gs' with
    | nil => rfl
    | cons g' gs' =>
      refine absurd (Or.inr ⟨by simp [hgroups], Nat.le_trans hout (need_mono fun l hl => ?_)⟩) hnot
      rw [hgroups, List.dropLast_append_cons, List.dropLast_cons_cons, List.flatten_append,
        List.flatten_cons]
      simp only [List.mem_append] at hl ⊢
      tauto
  rw [hlast] at hgroups
  refine ⟨before, i, after, gs, pre, post, rfl, hgroups, ?_, hout, hneeded, hfirst, ?_⟩
  · by_contra hroom
    refine hnot (Or.inr ⟨by simp [hgroups], ?_⟩)
    rw [hgroups, List.dropLast_concat]
    exact Nat.not_lt.mp hroom
  · intro hmem
    obtain ⟨j, hj, hk⟩ := mem_keysOf.mp hmem
    obtain ⟨mid, after', rfl⟩ := List.append_of_mem hj
    refine hgone j (mem_leftover.mpr ⟨before ++ i :: mid, after', by simp, Or.inl ?_⟩) hk
    refine Nat.le_trans hout (need_mono fun l hl => ?_)
    rw [keysOf_append, keysOf_cons, hgroups]
    simp only [List.mem_append, List.flatten_append, List.flatten_cons] at hl ⊢
    tauto

theorem lost_of_runsOut {cap : ℕ} {is : List ι} {k : K} (h : RunsOut m groups cap is k) :
    Lost m groups cap is k := by
  obtain ⟨before, i, after, gs, pre, post, rfl, hgroups, hroom, hout, hneeded, hfirst, hafter⟩ := h
  refine ⟨hneeded, mem_keysOf.mpr ⟨i, by simp, by simp [hgroups]⟩, ?_, fun j hj hk => ?_⟩
  · rw [visitItems_marks, mem_marked_iff]
    rintro ⟨-, pre', post', hsplit, hneed⟩
    have hkeys : keysOf groups (before ++ i :: after) =
        (keysOf groups before ++ gs.flatten ++ pre) ++ k :: (post ++ keysOf groups after) := by
      simp [keysOf_append, keysOf_cons, hgroups]
    rw [hkeys] at hsplit
    -- Every place of the key has the whole of its first prefix before it.
    have hprefix : ∀ l ∈ keysOf groups before ++ gs.flatten ++ pre, l ∈ pre' := by
      rcases List.append_eq_append_iff.mp hsplit with ⟨mid, rfl, -⟩ | ⟨mid, heq, htail⟩
      · exact fun l hl => List.mem_append_left _ hl
      · cases mid with
        | nil => rw [heq, List.append_nil]; exact fun l hl => hl
        | cons l mid =>
          obtain ⟨rfl, -⟩ := List.cons.inj htail
          exact absurd (heq ▸ List.mem_append_right _ List.mem_cons_self) hfirst
    exact absurd hneed (Nat.not_lt.mpr (Nat.le_trans hout (need_mono hprefix)))
  · obtain ⟨before', after', hsplit, hover⟩ := mem_leftover.mp hj
    rcases places hsplit with ⟨mid, rfl⟩ | ⟨rfl, rfl⟩ | hmem
    · -- What comes before was visited to its end.
      have hcap : cap ≤ need m (keysOf groups (before' ++ j :: mid) ++ gs.flatten) := by
        rw [keysOf_append, keysOf_cons]
        rcases hover with hover | ⟨-, hover⟩
        · refine Nat.le_trans hover (need_mono fun l hl => ?_)
          simp only [List.mem_append]
          tauto
        · refine Nat.le_trans hover (need_mono fun l hl => ?_)
          have hdrop : l ∈ (groups j).dropLast.flatten → l ∈ (groups j).flatten :=
            mem_flatten_of_dropLast
          simp only [List.mem_append] at hl ⊢
          tauto
      omega
    · rcases hover with hover | ⟨-, hover⟩
      · have hle : need m (keysOf groups before) ≤ need m (keysOf groups before ++ gs.flatten) :=
          need_mono fun l hl => List.mem_append_left _ hl
        omega
      · rw [hgroups, List.dropLast_concat] at hover
        omega
    · exact hafter (mem_keysOf.mpr ⟨j, hmem, hk⟩)

/-- A key is lost exactly when the marks run out in front of it. -/
theorem lost_iff_runsOut {cap : ℕ} {is : List ι} {k : K} :
    Lost m groups cap is k ↔ RunsOut m groups cap is k :=
  ⟨runsOut_of_lost, lost_of_runsOut⟩

end Budget
