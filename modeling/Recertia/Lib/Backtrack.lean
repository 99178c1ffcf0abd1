import Mathlib.Data.List.Induction
import Mathlib.Data.List.Nodup
import Mathlib.Data.List.Pairwise

/-! A log of visits, each at a place and of a rank, read as a tree: a visit lies below the one
before it, unless it goes back to its place at a higher rank: then it lies beside the last visit
there. -/
namespace Backtrack

variable {α κ : Type*} [DecidableEq κ] (place : α → κ) (rank : α → ℕ)

/-- The last visit at a place. -/
def lastAt (xs : List α) (k : κ) : Option α := (xs.filter fun y => place y = k).getLast?

def goesBack (xs : List α) (x : α) : Bool :=
  (lastAt place xs (place x)).any fun y => rank y < rank x

/-- The visits in order, each with its parent. -/
inductive Placed : List (Option α × α) → Prop
  | nil : Placed []
  | under {E : List (Option α × α)} {x : α} (placed : Placed E) (fresh : x ∉ E.map Prod.snd)
      (onward : goesBack place rank (E.map Prod.snd) x = false) :
      Placed (E ++ [((E.map Prod.snd).getLast?, x)])
  | beside {E : List (Option α × α)} {q : Option α} {y x : α} (placed : Placed E)
      (fresh : x ∉ E.map Prod.snd) (last : lastAt place (E.map Prod.snd) (place x) = some y)
      (higher : rank y < rank x) (parent : (q, y) ∈ E) : Placed (E ++ [(q, x)])

/-- The next visit at the place of `x` is of a higher rank. -/
def Retried (xs : List α) (x : α) : Prop :=
  ∃ before after c, xs = before ++ x :: after ∧
    after.find? (fun y => place y = place x) = some c ∧ rank x < rank c

/-- After `x` the log ends or goes back. -/
def EndsBranch (xs : List α) (x : α) : Prop :=
  ∀ before c after, xs = before ++ x :: c :: after →
    goesBack place rank (before ++ [x]) c = true

/-- Visits under one parent are at one place, of rising rank, and each but the last is retried. -/
def Rises (xs : List α) (a b : Option α × α) : Prop :=
  a.1 = b.1 → place a.2 = place b.2 ∧ rank a.2 < rank b.2 ∧ Retried place rank xs a.2

variable {place rank} {E : List (Option α × α)} {xs : List α} {x y c : α}

theorem split_unique {before after before' after' : List α}
    (hnodup : (before ++ x :: after).Nodup) (h : before ++ x :: after = before' ++ x :: after') :
    before = before' ∧ after = after' := by
  have hfirst : x ∉ before ∧ x ∉ after := by
    have hn := List.nodup_middle.mp hnodup
    have hx := (List.nodup_cons.mp hn).1
    rw [List.mem_append] at hx
    exact not_or.mp hx
  have hsame := (List.append_cons_inj_of_notMem hfirst.1 hfirst.2).mp h
  exact ⟨hsame.1, hsame.2.2⟩

theorem lastAt_snoc (xs : List α) (x : α) (k : κ) :
    lastAt place (xs ++ [x]) k = if place x = k then some x else lastAt place xs k := by
  unfold lastAt
  rw [List.filter_append]
  by_cases h : place x = k
  · simp [h]
  · simp [h]

theorem lastAt_split {k : κ} (h : lastAt place xs k = some y) :
    place y = k ∧ ∃ before after, xs = before ++ y :: after ∧ ∀ c ∈ after, place c ≠ k := by
  induction xs using List.reverseRecOn with
  | nil => simp [lastAt] at h
  | append_singleton xs x ih =>
    rw [lastAt_snoc] at h
    by_cases hx : place x = k
    · rw [if_pos hx] at h
      obtain rfl := Option.some.inj h
      exact ⟨hx, xs, [], rfl, fun c hc => absurd hc List.not_mem_nil⟩
    · rw [if_neg hx] at h
      obtain ⟨hy, before, after, rfl, hafter⟩ := ih h
      refine ⟨hy, before, after ++ [x], by simp, fun c hc => ?_⟩
      rcases List.mem_append.mp hc with hc | hc
      · exact hafter c hc
      · rw [List.mem_singleton.mp hc]
        exact hx

theorem lastAt_of_split {before after : List α} (h : ∀ c ∈ after, place c ≠ place y) :
    lastAt place (before ++ y :: after) (place y) = some y := by
  have hnone : after.filter (fun c => place c = place y) = [] := by
    apply List.filter_eq_nil_iff.mpr
    intro c hc
    simpa using h c hc
  unfold lastAt
  rw [List.filter_append, List.filter_cons, if_pos (by simp), hnone]
  simp

theorem goesBack_of_lastAt (h : lastAt place xs (place x) = some y) (hrank : rank y < rank x) :
    goesBack place rank xs x = true := by
  unfold goesBack
  rw [h]
  simpa using hrank

theorem nodup_snoc (h : xs.Nodup) (fresh : x ∉ xs) : (xs ++ [x]).Nodup := by
  rw [List.nodup_middle, List.append_nil]
  exact List.nodup_cons.mpr ⟨fresh, h⟩

theorem nodup_of_placed (h : Placed place rank E) : (E.map Prod.snd).Nodup := by
  induction h with
  | nil => exact List.nodup_nil
  | under _ fresh _ ih =>
    rw [List.map_append]
    exact nodup_snoc ih fresh
  | beside _ fresh _ _ _ ih =>
    rw [List.map_append]
    exact nodup_snoc ih fresh

/-- A visit has one parent. -/
theorem parent_unique (h : Placed place rank E) {q r : Option α} (hq : (q, x) ∈ E)
    (hr : (r, x) ∈ E) : q = r := by
  have heq : (q, x) = (r, x) := List.inj_on_of_nodup_map (nodup_of_placed h) hq hr rfl
  exact congrArg Prod.fst heq

/-- Only the visit right after it, going onward, opens the branch below a visit. -/
theorem next_of_child (h : Placed place rank E) {p : α} (hx : (some p, x) ∈ E) :
    ∃ before c after, E.map Prod.snd = before ++ p :: c :: after ∧
      goesBack place rank (before ++ [p]) c = false := by
  induction h generalizing x with
  | nil => cases hx
  | @under E z placed fresh onward ih =>
    rcases List.mem_append.mp hx with hx | hx
    · obtain ⟨before, c, after, hsplit, hc⟩ := ih hx
      exact ⟨before, c, after ++ [z], by simp [hsplit], hc⟩
    · obtain ⟨hp, rfl⟩ := Prod.mk.inj (List.mem_singleton.mp hx)
      obtain ⟨before, hbefore⟩ := List.getLast?_eq_some_iff.mp hp.symm
      refine ⟨before, x, [], by simp [hbefore], ?_⟩
      rwa [← hbefore]
  | @beside E q y z placed fresh last higher parent ih =>
    rcases List.mem_append.mp hx with hx | hx
    · obtain ⟨before, c, after, hsplit, hc⟩ := ih hx
      exact ⟨before, c, after ++ [z], by simp [hsplit], hc⟩
    · obtain ⟨rfl, rfl⟩ := Prod.mk.inj (List.mem_singleton.mp hx)
      obtain ⟨before, c, after, hsplit, hc⟩ := ih parent
      exact ⟨before, c, after ++ [x], by simp [hsplit], hc⟩

/-- A split of a log at one of its entries: the last one, or one of those before. -/
theorem snoc_split {xs front after : List α} {z c : α} (h : xs ++ [z] = front ++ c :: after) :
    (xs = front ∧ z = c) ∨ ∃ rest, xs = front ++ c :: rest := by
  rcases List.eq_nil_or_concat after with rfl | ⟨rest, a, rfl⟩
  · obtain ⟨hxs, hz⟩ := List.append_inj' h rfl
    exact Or.inl ⟨hxs, List.singleton_inj.mp hz⟩
  · have heq : xs ++ [z] = (front ++ c :: rest) ++ [a] := by simpa using h
    exact Or.inr ⟨rest, (List.append_inj' heq rfl).1⟩

theorem child_of_next (h : Placed place rank E) {p : α} {before after : List α}
    (hsplit : E.map Prod.snd = before ++ p :: c :: after)
    (honward : goesBack place rank (before ++ [p]) c = false) : (some p, c) ∈ E := by
  induction h generalizing after with
  | nil => simp at hsplit
  | @under E z placed fresh onward ih =>
    have heq : E.map Prod.snd ++ [z] = (before ++ [p]) ++ c :: after := by simpa using hsplit
    rcases snoc_split heq with ⟨hE, rfl⟩ | ⟨rest, hE⟩
    · apply List.mem_append_right
      rw [hE]
      simp
    · exact List.mem_append_left _ (ih (by simpa using hE))
  | @beside E q y z placed fresh last higher parent ih =>
    have heq : E.map Prod.snd ++ [z] = (before ++ [p]) ++ c :: after := by simpa using hsplit
    rcases snoc_split heq with ⟨hE, rfl⟩ | ⟨rest, hE⟩
    · rw [← hE, goesBack_of_lastAt last higher] at honward
      cases honward
    · exact List.mem_append_left _ (ih (by simpa using hE))

/-- Nothing lies below a visit exactly when the log ends there or goes back. -/
theorem childless_iff (h : Placed place rank E) {p : α} :
    (∀ x, (some p, x) ∉ E) ↔ EndsBranch place rank (E.map Prod.snd) p := by
  constructor
  · intro hnone before c after hsplit
    by_contra honward
    exact hnone c (child_of_next h hsplit (Bool.not_eq_true _ ▸ honward))
  · intro hends x hx
    obtain ⟨before, c, after, hsplit, honward⟩ := next_of_child h hx
    rw [hends before c after hsplit] at honward
    cases honward

/-- A visit that goes back lies beside the last visit at its place. -/
theorem beside_of_last (h : Placed place rank E) {before after : List α}
    (hsplit : E.map Prod.snd = before ++ c :: after)
    (hlast : lastAt place before (place c) = some y) (hrank : rank y < rank c) :
    ∃ q, (q, y) ∈ E ∧ (q, c) ∈ E := by
  induction h generalizing after with
  | nil => simp at hsplit
  | @under E z placed fresh onward ih =>
    rw [List.map_append] at hsplit
    rcases snoc_split hsplit with ⟨hE, rfl⟩ | ⟨rest, hE⟩
    · rw [hE, goesBack_of_lastAt hlast hrank] at onward
      cases onward
    · obtain ⟨q, hy, hc⟩ := ih hE
      exact ⟨q, List.mem_append_left _ hy, List.mem_append_left _ hc⟩
  | @beside E q y' z placed fresh last higher parent ih =>
    rw [List.map_append] at hsplit
    rcases snoc_split hsplit with ⟨hE, rfl⟩ | ⟨rest, hE⟩
    · rw [hE, hlast] at last
      obtain rfl := Option.some.inj last
      exact ⟨q, List.mem_append_left _ parent, by simp⟩
    · obtain ⟨r, hy, hc⟩ := ih hE
      exact ⟨r, List.mem_append_left _ hy, List.mem_append_left _ hc⟩

theorem Retried.snoc (h : Retried place rank xs x) (z : α) : Retried place rank (xs ++ [z]) x := by
  obtain ⟨before, after, c, rfl, hfind, hrank⟩ := h
  exact ⟨before, after ++ [z], c, by simp, by rw [List.find?_append, hfind]; rfl, hrank⟩

/-- The last visit at a place has not been retried yet. -/
theorem not_retried_of_lastAt (hnodup : xs.Nodup) (h : lastAt place xs (place x) = some x) :
    ¬ Retried place rank xs x := by
  rintro ⟨before, after, c, hsplit, hfind, -⟩
  obtain ⟨-, before', after', hsplit', hafter⟩ := lastAt_split h
  rw [hsplit] at hnodup
  obtain ⟨-, rfl⟩ := split_unique hnodup (hsplit.symm.trans hsplit')
  have hplace := List.find?_some hfind
  exact hafter c (List.mem_of_find?_eq_some hfind) (by simpa using hplace)

theorem Rises.snoc {a b : Option α × α} (h : Rises place rank xs a b) (z : α) :
    Rises place rank (xs ++ [z]) a b := by
  intro hparent
  obtain ⟨hplace, hrank, hretried⟩ := h hparent
  exact ⟨hplace, hrank, hretried.snoc z⟩

theorem rises_or (h : E.Pairwise (Rises place rank xs)) {a b : Option α × α} (ha : a ∈ E)
    (hb : b ∈ E) (hne : a ≠ b) : Rises place rank xs a b ∨ Rises place rank xs b a := by
  have hsymm : Std.Symm fun a b => Rises place rank xs a b ∨ Rises place rank xs b a :=
    ⟨fun _ _ h => h.symm⟩
  have hpairs : E.Pairwise fun a b => Rises place rank xs a b ∨ Rises place rank xs b a :=
    h.imp fun hab => Or.inl hab
  exact hpairs.forall ha hb hne

theorem siblings_rise (h : Placed place rank E) :
    E.Pairwise (Rises place rank (E.map Prod.snd)) := by
  induction h with
  | nil => exact List.Pairwise.nil
  | @under E z placed fresh onward ih =>
    rw [List.map_append]
    refine List.pairwise_append.mpr ⟨ih.imp ?_, List.pairwise_singleton _ _, ?_⟩
    · exact fun hab => hab.snoc z
    · -- Nothing lies below the last visit yet.
      intro a ha b hb hparent
      obtain rfl := List.mem_singleton.mp hb
      dsimp only at hparent
      cases hlast : (E.map Prod.snd).getLast? with
      | none =>
        rw [List.getLast?_eq_none_iff, List.map_eq_nil_iff] at hlast
        rw [hlast] at ha
        cases ha
      | some l =>
        obtain ⟨front, hfront⟩ := List.getLast?_eq_some_iff.mp hlast
        have hchild : (some l, a.2) ∈ E := by
          rw [← hlast, ← hparent]
          exact ha
        obtain ⟨before, c, after, hsplit, -⟩ := next_of_child placed hchild
        have hnodup := nodup_of_placed placed
        rw [hsplit] at hnodup
        have hsame := split_unique hnodup (hsplit.symm.trans hfront)
        cases hsame.2
  | @beside E q y z placed fresh last higher parent ih =>
    have hnodup := nodup_of_placed placed
    have hplace : place y = place z := (lastAt_split last).1
    have hlast : lastAt place (E.map Prod.snd) (place y) = some y := by rwa [hplace]
    rw [List.map_append]
    refine List.pairwise_append.mpr ⟨ih.imp ?_, List.pairwise_singleton _ _, ?_⟩
    · exact fun hab => hab.snoc z
    · intro a ha b hb hparent
      obtain rfl := List.mem_singleton.mp hb
      dsimp only at hparent ⊢
      by_cases hay : a = (q, y)
      · -- The visit that is gone back to is retried by this one.
        subst hay
        refine ⟨hplace, higher, ?_⟩
        obtain ⟨-, before, after, hsplit, hafter⟩ := lastAt_split hlast
        refine ⟨before, after ++ [z], z, by simp [hsplit], ?_, higher⟩
        have hnone : after.find? (fun c => place c = place y) = none := by
          apply List.find?_eq_none.mpr
          intro c hc
          simpa using hafter c hc
        rw [List.find?_append, hnone]
        simp [hplace]
      · rcases rises_or ih ha parent hay with hbefore | hafter
        · obtain ⟨hsame, hrank, hretried⟩ := hbefore hparent
          exact ⟨hsame.trans hplace, Nat.lt_trans hrank higher, hretried.snoc z⟩
        · exact absurd (hafter hparent.symm).2.2 (not_retried_of_lastAt hnodup hlast)

/-- A visit has a sibling of a higher rank exactly when the next visit at its place is one. -/
theorem higher_sibling_iff (h : Placed place rank E) {q : Option α} (hx : (q, x) ∈ E) :
    (∃ y, (q, y) ∈ E ∧ rank x < rank y) ↔ Retried place rank (E.map Prod.snd) x := by
  constructor
  · rintro ⟨y, hy, hrank⟩
    have hne : (q, x) ≠ (q, y) := by
      intro heq
      rw [(Prod.mk.inj heq).2] at hrank
      exact Nat.lt_irrefl _ hrank
    rcases rises_or (siblings_rise h) hx hy hne with hbefore | hafter
    · exact (hbefore rfl).2.2
    · exact absurd (hafter rfl).2.1 (Nat.not_lt.mpr (Nat.le_of_lt hrank))
  · rintro ⟨before, after, c, hsplit, hfind, hrank⟩
    obtain ⟨hplace, mid, rest, rfl, hmid⟩ := List.find?_eq_some_iff_append.mp hfind
    have hplace : place c = place x := by simpa using hplace
    have hlast : lastAt place (before ++ x :: mid) (place c) = some x := by
      rw [hplace]
      apply lastAt_of_split
      intro d hd
      simpa using hmid d hd
    have hsplit' : E.map Prod.snd = (before ++ x :: mid) ++ c :: rest := by simpa using hsplit
    obtain ⟨r, hr, hc⟩ := beside_of_last h hsplit' hlast hrank
    rw [parent_unique h hr hx] at hc
    exact ⟨c, hc, hrank⟩

section Map

variable {β : Type*} {f : β → α} {ys : List β} {b : β}

theorem lastAt_map (ys : List β) (k : κ) :
    lastAt place (ys.map f) k = (lastAt (place ∘ f) ys k).map f := by
  unfold lastAt
  rw [List.filter_map, List.getLast?_map]
  rfl

theorem goesBack_map (ys : List β) (b : β) :
    goesBack place rank (ys.map f) (f b) = goesBack (place ∘ f) (rank ∘ f) ys b := by
  unfold goesBack
  rw [lastAt_map, Option.any_map]
  rfl

/-- A split of the images is the image of a split. -/
theorem split_map (hnodup : (ys.map f).Nodup) (hb : b ∈ ys) {before after : List α}
    (h : ys.map f = before ++ f b :: after) :
    ∃ before' after', ys = before' ++ b :: after' ∧ before'.map f = before ∧
      after'.map f = after := by
  obtain ⟨before', rest, rfl, hbefore, hrest⟩ := List.map_eq_append_iff.mp h
  obtain ⟨b', after', rfl, hb', hafter⟩ := List.map_eq_cons_iff.mp hrest
  obtain rfl : b' = b := List.inj_on_of_nodup_map hnodup (by simp) hb hb'
  exact ⟨before', after', rfl, hbefore, hafter⟩

theorem retried_map_iff (hnodup : (ys.map f).Nodup) (hb : b ∈ ys) :
    Retried place rank (ys.map f) (f b) ↔ Retried (place ∘ f) (rank ∘ f) ys b := by
  constructor
  · rintro ⟨before, after, c, hsplit, hfind, hrank⟩
    obtain ⟨before', after', hys, -, rfl⟩ := split_map hnodup hb hsplit
    rw [List.find?_map] at hfind
    obtain ⟨c', hc', rfl⟩ := Option.map_eq_some_iff.mp hfind
    exact ⟨before', after', c', hys, hc', hrank⟩
  · rintro ⟨before, after, c, rfl, hfind, hrank⟩
    refine ⟨before.map f, after.map f, f c, by simp, ?_, hrank⟩
    rw [List.find?_map]
    exact congrArg (Option.map f) hfind

theorem endsBranch_map_iff (hnodup : (ys.map f).Nodup) (hb : b ∈ ys) :
    EndsBranch place rank (ys.map f) (f b) ↔ EndsBranch (place ∘ f) (rank ∘ f) ys b := by
  constructor
  · intro h before c after hsplit
    rw [← goesBack_map, List.map_append]
    exact h (before.map f) (f c) (after.map f) (by simp [hsplit])
  · intro h before c after hsplit
    obtain ⟨before', after', hys, rfl, hafter⟩ := split_map hnodup hb hsplit
    obtain ⟨c', rest, rfl, rfl, rfl⟩ := List.map_eq_cons_iff.mp hafter
    have hback := h before' c' rest hys
    rw [← goesBack_map, List.map_append] at hback
    exact hback

end Map

end Backtrack
