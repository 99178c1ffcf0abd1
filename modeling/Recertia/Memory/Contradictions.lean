import Mathlib.Data.List.Dedup
import Recertia.Memory.Facts

/-! Contradicted facts over sequences of writes: which writes lose one of two assertions that
contradict each other, or file it as if nothing contradicted it. -/
namespace Recertia.Facts

/-- The fact with another assertion that a write meets at its path. -/
def met (store : FactStore) (fact : Fact) : Option Fact :=
  (store.files fact.path).filter fun existing => existing.assertion ≠ fact.assertion

/-- The assertions that the writes so far have met in contradiction, with their scopes. -/
def contest (store : FactStore) (fact : Fact) (contested : List (Scope × String)) :
    List (Scope × String) :=
  (met store fact).elim contested fun existing =>
    (fact.scope, existing.assertion) :: (fact.scope, fact.assertion) :: contested

/-- The store behind a sequence of writes, with the assertions that they have met. -/
def stateAfter (facts : List Fact) : FactStore × List (Scope × String) :=
  facts.foldl (fun s fact => ((write s.1 fact).2, contest s.1 fact s.2)) (.empty, [])

/-- Some file of the scope carries the assertion. -/
def Readable (store : FactStore) (scope : Scope) (assertion : String) : Prop :=
  ∃ slug fact, store.files (scope, slug) = some fact ∧ fact.assertion = assertion

/-- Every file of the scope that carries the assertion is marked as contradicted. -/
def Demoted (store : FactStore) (scope : Scope) (assertion : String) : Prop :=
  ∀ slug fact, store.files (scope, slug) = some fact → fact.assertion = assertion →
    fact.status = .contradicted

/-- A fact is readable, marked as contradicted by the other one, and demoted. -/
def MarkedBy (store : FactStore) (fact other : Fact) : Prop :=
  ∃ slug marked, store.files (fact.scope, slug) = some marked ∧ marked.factId = fact.factId ∧
    marked.assertion = fact.assertion ∧ marked.status = .contradicted ∧
    marked.confidence ≤ 1 / 5 ∧ other.factId.text ∈ marked.contradicts

/-- The writes that keep what is contested. -/
structure Safe (store : FactStore) (contested : List (Scope × String)) (fact : Fact) : Prop where
  /-- A write that meets no contradiction does not file a contested assertion as uncontradicted. -/
  plain : met store fact = none → (fact.scope, fact.assertion) ∈ contested →
    fact.status = .contradicted
  /-- The alternate path is another one. -/
  apart : met store fact ≠ none → fact.conflictSlug ≠ fact.slug
  /-- The file at the alternate path does not carry a contested assertion, or not alone. -/
  alternate : ∀ old, met store fact ≠ none →
    store.files (fact.scope, fact.conflictSlug) = some old →
    (fact.scope, old.assertion) ∈ contested → old.assertion = fact.assertion ∨
      ∃ slug other, slug ≠ fact.conflictSlug ∧ store.files (fact.scope, slug) = some other ∧
        other.assertion = old.assertion
  /-- No third file carries one of the two assertions as uncontradicted. -/
  elsewhere : ∀ existing slug other, met store fact = some existing → slug ≠ fact.slug →
    slug ≠ fact.conflictSlug → store.files (fact.scope, slug) = some other →
    other.assertion = existing.assertion ∨ other.assertion = fact.assertion →
      other.status = .contradicted

/-! ### One write -/

theorem met_eq_some {store : FactStore} {fact existing : Fact}
    (h : met store fact = some existing) :
    store.files fact.path = some existing ∧ existing.assertion ≠ fact.assertion ∧
      existing.scope = fact.scope ∧ existing.slug = fact.slug := by
  obtain ⟨hfile, hne⟩ := Option.filter_eq_some_iff.mp h
  have hpath : existing.path = fact.path := store.filed _ _ hfile
  exact ⟨hfile, of_decide_eq_true hne, congrArg Prod.fst hpath, congrArg Prod.snd hpath⟩

theorem met_ne_none {store : FactStore} {fact existing : Fact}
    (h : met store fact = some existing) : met store fact ≠ none :=
  Option.ne_none_iff_exists'.mpr ⟨existing, h⟩

theorem files_put (store : FactStore) (fact : Fact) (path : Path) :
    (store.put fact).files path = if path = fact.path then some fact else store.files path :=
  Function.update_apply ..

theorem files_write_plain {store : FactStore} {fact : Fact} (h : met store fact = none)
    (path : Path) :
    (write store fact).2.files path = if path = fact.path then some fact else store.files path := by
  unfold write
  split
  · rename_i existing hfile
    have hsame : existing.assertion = fact.assertion := by
      by_contra hne
      rw [met, hfile, Option.filter_some, if_pos (decide_eq_true hne)] at h
      cases h
    rw [if_neg (not_not.mpr hsame)]
    exact files_put store fact path
  · exact files_put store fact path

theorem files_write_met {store : FactStore} {fact existing : Fact}
    (h : met store fact = some existing) (path : Path) :
    (write store fact).2.files path =
      if path = (fact.scope, fact.conflictSlug) then some (fact.alternate existing)
      else if path = fact.path then some (existing.contradictedBy fact.factId)
      else store.files path := by
  obtain ⟨hfile, hne, hscope, hslug⟩ := met_eq_some h
  have hpath : (existing.contradictedBy fact.factId).path = fact.path := Prod.ext hscope hslug
  unfold write
  simp only [hfile]
  rw [if_pos hne]
  change
    ((store.put (existing.contradictedBy fact.factId)).put (fact.alternate existing)).files path = _
  rw [files_put, files_put, hpath]
  rfl

/-- The assertions of a plain write stay where they are. -/
theorem readable_write_plain {store : FactStore} {fact : Fact} (h : met store fact = none)
    {scope : Scope} {assertion : String} (hread : Readable store scope assertion) :
    Readable (write store fact).2 scope assertion := by
  obtain ⟨slug, other, hfile, rfl⟩ := hread
  by_cases hpath : (scope, slug) = fact.path
  · refine ⟨slug, fact, by rw [files_write_plain h, if_pos hpath], ?_⟩
    by_contra hne
    rw [met, ← hpath, hfile, Option.filter_some, if_pos (decide_eq_true (Ne.symm hne))] at h
    cases h
  · exact ⟨slug, other, by rw [files_write_plain h, if_neg hpath]; exact hfile, rfl⟩

/-- Both facts of a contradiction are marked with each other. -/
theorem marked_write_met {store : FactStore} {fact existing : Fact}
    (h : met store fact = some existing) (hapart : fact.conflictSlug ≠ fact.slug) :
    MarkedBy (write store fact).2 existing fact ∧ MarkedBy (write store fact).2 fact existing := by
  obtain ⟨-, -, hscope, hslug⟩ := met_eq_some h
  have hmem (ids : List String) (id : String) :
      id ∈ (ids ++ [id]).dedup.insertionSort (· ≤ ·) := by
    rw [List.mem_insertionSort, List.mem_dedup]
    exact List.mem_append_right _ (List.mem_singleton_self id)
  have hconfidence (q : ℚ) : min q (1 / 5) ≤ 1 / 5 := min_le_right q _
  constructor
  · refine ⟨fact.slug, existing.contradictedBy fact.factId, ?_, rfl, rfl, rfl, hconfidence _,
      hmem _ _⟩
    have hother : ((existing.scope, fact.slug) : Path) ≠ (fact.scope, fact.conflictSlug) :=
      fun heq => hapart (congrArg Prod.snd heq).symm
    rw [files_write_met h, if_neg hother, if_pos (by rw [hscope]; rfl)]
  · refine ⟨fact.conflictSlug, fact.alternate existing, ?_, rfl, rfl, rfl, hconfidence _, hmem _ _⟩
    rw [files_write_met h, if_pos rfl]

/-- Everything contested so far is readable and demoted. -/
def Settled (store : FactStore) (contested : List (Scope × String)) : Prop :=
  ∀ c ∈ contested, Readable store c.1 c.2 ∧ Demoted store c.1 c.2

theorem settled_write_plain {store : FactStore} {contested : List (Scope × String)} {fact : Fact}
    (hmet : met store fact = none) (hsafe : Safe store contested fact)
    (h : Settled store contested) : Settled (write store fact).2 contested := by
  intro c hc
  obtain ⟨hread, hdemoted⟩ := h c hc
  refine ⟨readable_write_plain hmet hread, fun slug other hfile hassertion => ?_⟩
  rw [files_write_plain hmet] at hfile
  split at hfile
  · rename_i hpath
    cases hfile
    have hscope : c.1 = fact.scope := congrArg Prod.fst hpath
    refine hsafe.plain hmet ?_
    rw [← hscope, hassertion]
    exact hc
  · exact hdemoted slug other hfile hassertion

/-- The files behind a contradiction: the two facts of it, and the others as they were. -/
theorem file_cases {store : FactStore} {fact existing other : Fact} {scope : Scope} {slug : Slug}
    (hmet : met store fact = some existing)
    (h : (write store fact).2.files (scope, slug) = some other) :
    other = fact.alternate existing ∨
      (scope, slug) ≠ (fact.scope, fact.conflictSlug) ∧
        ((scope, slug) = fact.path ∧ other = existing.contradictedBy fact.factId ∨
          (scope, slug) ≠ fact.path ∧ store.files (scope, slug) = some other) := by
  rw [files_write_met hmet] at h
  split at h
  · exact .inl (Option.some.inj h).symm
  · rename_i halt
    split at h
    · rename_i hpath
      exact .inr ⟨halt, .inl ⟨hpath, (Option.some.inj h).symm⟩⟩
    · rename_i hpath
      exact .inr ⟨halt, .inr ⟨hpath, h⟩⟩

theorem readable_write_met {store : FactStore} {contested : List (Scope × String)}
    {fact existing : Fact} (hmet : met store fact = some existing)
    (hsafe : Safe store contested fact) {scope : Scope} {assertion : String}
    (hc : (scope, assertion) ∈ contested) (h : Readable store scope assertion) :
    Readable (write store fact).2 scope assertion := by
  obtain ⟨hdest, -, -, -⟩ := met_eq_some hmet
  -- A file at another path than the alternate one keeps its assertion.
  have hkeep {slug : Slug} {other : Fact} (hne : (scope, slug) ≠ (fact.scope, fact.conflictSlug))
      (hfile : store.files (scope, slug) = some other) (hassertion : other.assertion = assertion) :
      Readable (write store fact).2 scope assertion := by
    by_cases hpath : (scope, slug) = fact.path
    · rw [hpath, hdest] at hfile
      cases hfile
      refine ⟨slug, existing.contradictedBy fact.factId, ?_, hassertion⟩
      rw [files_write_met hmet, if_neg hne, if_pos hpath]
    · refine ⟨slug, other, ?_, hassertion⟩
      rw [files_write_met hmet, if_neg hne, if_neg hpath]
      exact hfile
  obtain ⟨slug, old, hfile, hassertion⟩ := h
  by_cases halt : (scope, slug) = (fact.scope, fact.conflictSlug)
  · obtain ⟨rfl, rfl⟩ := Prod.mk.inj halt
    have hcase := hsafe.alternate old (met_ne_none hmet) hfile (hassertion ▸ hc)
    rcases hcase with hsame | ⟨slug', other, hne, hother, heq⟩
    · refine ⟨fact.conflictSlug, fact.alternate existing, ?_, hsame.symm.trans hassertion⟩
      rw [files_write_met hmet, if_pos rfl]
    · exact hkeep (fun h => hne (congrArg Prod.snd h)) hother (heq.trans hassertion)
  · exact hkeep halt hfile hassertion

theorem settled_write_met {store : FactStore} {contested : List (Scope × String)}
    {fact existing : Fact} (hmet : met store fact = some existing)
    (hsafe : Safe store contested fact) (h : Settled store contested) :
    Settled (write store fact).2
      ((fact.scope, existing.assertion) :: (fact.scope, fact.assertion) :: contested) := by
  obtain ⟨hmarked, hmarked'⟩ := marked_write_met hmet (hsafe.apart (met_ne_none hmet))
  obtain ⟨-, -, hscope, -⟩ := met_eq_some hmet
  have hnew {assertion : String}
      (hassertion : assertion = existing.assertion ∨ assertion = fact.assertion) :
      Demoted (write store fact).2 fact.scope assertion := by
    intro slug other hfile heq
    rcases file_cases hmet hfile with rfl | ⟨halt, ⟨-, rfl⟩ | ⟨hpath, hold⟩⟩
    · rfl
    · rfl
    · refine hsafe.elsewhere existing slug other hmet ?_ ?_ hold (heq ▸ hassertion)
      · exact fun hslug => hpath (by rw [hslug]; rfl)
      · exact fun hslug => halt (by rw [hslug])
  intro c hc
  rcases List.mem_cons.mp hc with rfl | hc
  · obtain ⟨slug, marked, hfile, -, hassertion, -⟩ := hmarked
    exact ⟨⟨slug, marked, hscope ▸ hfile, hassertion⟩, hnew (.inl rfl)⟩
  · rcases List.mem_cons.mp hc with rfl | hc
    · obtain ⟨slug, marked, hfile, -, hassertion, -⟩ := hmarked'
      exact ⟨⟨slug, marked, hfile, hassertion⟩, hnew (.inr rfl)⟩
    · obtain ⟨hread, hdemoted⟩ := h c hc
      refine ⟨readable_write_met hmet hsafe hc hread, fun slug other hfile heq => ?_⟩
      rcases file_cases hmet hfile with rfl | ⟨-, ⟨-, rfl⟩ | ⟨-, hold⟩⟩
      · rfl
      · rfl
      · exact hdemoted slug other hold heq

theorem settled_write {store : FactStore} {contested : List (Scope × String)} {fact : Fact}
    (hsafe : Safe store contested fact) (h : Settled store contested) :
    Settled (write store fact).2 (contest store fact contested) := by
  unfold contest
  cases hmet : met store fact with
  | none => exact settled_write_plain hmet hsafe h
  | some existing => exact settled_write_met hmet hsafe h

/-! ### A write that is not safe -/

/-- No two files hold one fact. -/
def DistinctIds (store : FactStore) : Prop :=
  ∀ path path' fact fact', store.files path = some fact → store.files path' = some fact' →
    fact.factId = fact'.factId → path = path'

/-- A write that keeps what is contested is safe. -/
theorem safe_of_settled {store : FactStore} {contested : List (Scope × String)} {fact : Fact}
    (hids : DistinctIds store)
    (hmarked : ∀ existing, met store fact = some existing →
      MarkedBy (write store fact).2 existing fact)
    (h : Settled (write store fact).2 (contest store fact contested)) :
    Safe store contested fact where
  plain hmet hc := by
    have hcontest : contest store fact contested = contested := by
      rw [contest, hmet, Option.elim_none]
    have hc' : (fact.scope, fact.assertion) ∈ contest store fact contested := by
      rw [hcontest]
      exact hc
    have hdemoted : Demoted (write store fact).2 fact.scope fact.assertion := (h _ hc').2
    have hfile : (write store fact).2.files (fact.scope, fact.slug) = some fact := by
      rw [files_write_plain hmet]
      exact if_pos rfl
    exact hdemoted fact.slug fact hfile rfl
  apart hsome halt := by
    obtain ⟨existing, hmet⟩ := Option.ne_none_iff_exists'.mp hsome
    obtain ⟨hdest, hne, -, -⟩ := met_eq_some hmet
    obtain ⟨slug, marked, hfile, hid, hassertion, -⟩ := hmarked existing hmet
    rcases file_cases hmet hfile with rfl | ⟨hother, ⟨hpath, -⟩ | ⟨hpath, hold⟩⟩
    · exact hne hassertion.symm
    · exact hother (hpath.trans (by rw [halt]; rfl))
    · exact hpath (hids _ _ _ _ hold hdest hid)
  alternate old hsome hfile hc := by
    obtain ⟨existing, hmet⟩ := Option.ne_none_iff_exists'.mp hsome
    obtain ⟨hdest, -, -, -⟩ := met_eq_some hmet
    have hc' : (fact.scope, old.assertion) ∈ contest store fact contested := by
      rw [contest, hmet, Option.elim_some]
      exact List.mem_cons_of_mem _ (List.mem_cons_of_mem _ hc)
    obtain ⟨slug, other, hother, hassertion⟩ := (h _ hc').1
    rcases file_cases hmet hother with rfl | ⟨hne, ⟨hpath, rfl⟩ | ⟨-, hold⟩⟩
    · exact .inl hassertion.symm
    · refine .inr ⟨slug, existing, fun heq => hne (by rw [heq]), ?_, hassertion⟩
      rw [hpath]
      exact hdest
    · exact .inr ⟨slug, other, fun heq => hne (by rw [heq]), hold, hassertion⟩
  elsewhere existing slug other hmet hslug halt hfile hassertion := by
    have hcontest : contest store fact contested =
        (fact.scope, existing.assertion) :: (fact.scope, fact.assertion) :: contested := by
      rw [contest, hmet, Option.elim_some]
    have hkept : (write store fact).2.files (fact.scope, slug) = some other := by
      rw [files_write_met hmet, if_neg fun heq => halt (congrArg Prod.snd heq),
        if_neg fun heq => hslug (congrArg Prod.snd heq)]
      exact hfile
    rcases hassertion with heq | heq
    · exact (h _ (hcontest ▸ List.mem_cons_self)).2 slug other hkept heq
    · exact (h _ (hcontest ▸ List.mem_cons_of_mem _ List.mem_cons_self)).2 slug other hkept heq

/-! ### Sequences of writes -/

theorem stateAfter_snoc (facts : List Fact) (fact : Fact) :
    stateAfter (facts ++ [fact]) =
      ((write (stateAfter facts).1 fact).2,
        contest (stateAfter facts).1 fact (stateAfter facts).2) := by
  rw [stateAfter, List.foldl_append]
  rfl

/-- What is contested is what some write has met. -/
theorem mem_contested {facts : List Fact} {c : Scope × String} :
    c ∈ (stateAfter facts).2 ↔ ∃ before fact after existing, facts = before ++ fact :: after ∧
      met (stateAfter before).1 fact = some existing ∧
      (c = (fact.scope, existing.assertion) ∨ c = (fact.scope, fact.assertion)) := by
  induction facts using List.reverseRecOn with
  | nil =>
    refine iff_of_false List.not_mem_nil ?_
    rintro ⟨before, fact, after, existing, hsplit, -⟩
    exact List.append_ne_nil_of_right_ne_nil before (List.cons_ne_nil fact after) hsplit.symm
  | append_singleton facts last ih =>
    rw [stateAfter_snoc, contest]
    constructor
    · intro hc
      have hold : c ∈ (stateAfter facts).2 → ∃ before fact after existing,
          facts ++ [last] = before ++ fact :: after ∧
          met (stateAfter before).1 fact = some existing ∧
          (c = (fact.scope, existing.assertion) ∨ c = (fact.scope, fact.assertion)) := by
        intro hc
        obtain ⟨before, fact, after, existing, hsplit, hmet, hc⟩ := ih.mp hc
        have hsplit' : facts ++ [last] = before ++ fact :: (after ++ [last]) := by
          rw [hsplit, List.append_assoc]
          rfl
        exact ⟨before, fact, after ++ [last], existing, hsplit', hmet, hc⟩
      cases hmet : met (stateAfter facts).1 last with
      | none =>
        rw [hmet] at hc
        exact hold hc
      | some existing =>
        rw [hmet] at hc
        rcases List.mem_cons.mp hc with hc | hc
        · exact ⟨facts, last, [], existing, rfl, hmet, .inl hc⟩
        · rcases List.mem_cons.mp hc with hc | hc
          · exact ⟨facts, last, [], existing, rfl, hmet, .inr hc⟩
          · exact hold hc
    · rintro ⟨before, fact, after, existing, hsplit, hmet, hc⟩
      rcases List.eq_nil_or_concat after with rfl | ⟨init, last', rfl⟩
      · obtain ⟨rfl, hlast⟩ := List.append_inj' hsplit rfl
        cases hlast
        rw [hmet, Option.elim_some]
        rcases hc with hc | hc
        · exact hc ▸ List.mem_cons_self
        · exact hc ▸ List.mem_cons_of_mem _ List.mem_cons_self
      · have hsplit' : facts ++ [last] = (before ++ fact :: init) ++ [last'] := by
          rw [hsplit, List.concat_eq_append, List.append_assoc]
          rfl
        obtain ⟨hinit, -⟩ := List.append_inj' hsplit' rfl
        have hmem : c ∈ (stateAfter facts).2 :=
          ih.mpr ⟨before, fact, init, existing, hinit, hmet, hc⟩
        cases met (stateAfter facts).1 last with
        | none => exact hmem
        | some _ => exact List.mem_cons_of_mem _ (List.mem_cons_of_mem _ hmem)

/-- A write puts its fact at one path, and every other file holds a fact that was at its path. -/
theorem file_source (store : FactStore) (fact : Fact) : ∃ here : Path, ∀ path other,
    (write store fact).2.files path = some other →
      path = here ∧ other.factId = fact.factId ∨
        ∃ old, store.files path = some old ∧ old.factId = other.factId := by
  cases hmet : met store fact with
  | none =>
    refine ⟨fact.path, fun path other hfile => ?_⟩
    rw [files_write_plain hmet] at hfile
    split at hfile
    · rename_i hpath
      cases hfile
      exact .inl ⟨hpath, rfl⟩
    · exact .inr ⟨other, hfile, rfl⟩
  | some existing =>
    obtain ⟨hdest, -, -, -⟩ := met_eq_some hmet
    refine ⟨(fact.scope, fact.conflictSlug), fun path other hfile => ?_⟩
    rw [files_write_met hmet] at hfile
    split at hfile
    · rename_i hpath
      cases hfile
      exact .inl ⟨hpath, rfl⟩
    · split at hfile
      · rename_i hpath
        cases hfile
        exact .inr ⟨existing, hpath ▸ hdest, rfl⟩
      · exact .inr ⟨other, hfile, rfl⟩

theorem distinctIds_write {store : FactStore} {fact : Fact} (hids : DistinctIds store)
    (hfresh : ∀ path other, store.files path = some other → other.factId ≠ fact.factId) :
    DistinctIds (write store fact).2 := by
  obtain ⟨here, hsource⟩ := file_source store fact
  intro path path' other other' hfile hfile' heq
  rcases hsource path other hfile with ⟨hpath, hid⟩ | ⟨old, hold, hid⟩
  · rcases hsource path' other' hfile' with ⟨hpath', -⟩ | ⟨old', hold', hid'⟩
    · rw [hpath, hpath']
    · exact absurd (hid'.trans (heq.symm.trans hid)) (hfresh path' old' hold')
  · rcases hsource path' other' hfile' with ⟨-, hid'⟩ | ⟨old', hold', hid'⟩
    · exact absurd (hid.trans (heq.trans hid')) (hfresh path old hold)
    · exact hids path path' old old' hold hold' (hid.trans (heq.trans hid'.symm))

/-- The claim of the store on a sequence of writes: each write that meets another assertion leaves
both facts marked with each other, and behind it, however many writes follow, both assertions are
readable in their scope and no fact that carries one of them is uncontradicted. -/
def Retained (facts : List Fact) : Prop :=
  ∀ before fact after existing, before ++ fact :: after <+: facts →
    met (stateAfter before).1 fact = some existing →
    (MarkedBy (write (stateAfter before).1 fact).2 existing fact ∧
      MarkedBy (write (stateAfter before).1 fact).2 fact existing) ∧
    ∀ assertion, assertion = existing.assertion ∨ assertion = fact.assertion →
      Readable (stateAfter (before ++ fact :: after)).1 fact.scope assertion ∧
        Demoted (stateAfter (before ++ fact :: after)).1 fact.scope assertion

/-- Every write of the sequence is safe where it is made. -/
def AllSafe (facts : List Fact) : Prop :=
  ∀ before fact, before ++ [fact] <+: facts →
    Safe (stateAfter before).1 (stateAfter before).2 fact

theorem settled_iff {facts : List Fact} :
    Settled (stateAfter facts).1 (stateAfter facts).2 ↔
      ∀ before fact after existing, facts = before ++ fact :: after →
        met (stateAfter before).1 fact = some existing →
        ∀ assertion, assertion = existing.assertion ∨ assertion = fact.assertion →
          Readable (stateAfter facts).1 fact.scope assertion ∧
            Demoted (stateAfter facts).1 fact.scope assertion := by
  constructor
  · intro h before fact after existing hsplit hmet assertion hassertion
    refine h (fact.scope, assertion)
      (mem_contested.mpr ⟨before, fact, after, existing, hsplit, hmet, ?_⟩)
    exact hassertion.imp (congrArg _) (congrArg _)
  · intro h c hc
    obtain ⟨before, fact, after, existing, hsplit, hmet, hc⟩ := mem_contested.mp hc
    rcases hc with rfl | rfl
    · exact h before fact after existing hsplit hmet _ (.inl rfl)
    · exact h before fact after existing hsplit hmet _ (.inr rfl)

theorem settled_of_allSafe {facts : List Fact} (h : AllSafe facts) :
    Settled (stateAfter facts).1 (stateAfter facts).2 := by
  induction facts using List.reverseRecOn with
  | nil => exact fun c hc => absurd hc List.not_mem_nil
  | append_singleton facts last ih =>
    have hbefore : AllSafe facts := fun before fact hstart =>
      h before fact (hstart.trans (List.prefix_append facts [last]))
    rw [stateAfter_snoc]
    exact settled_write (h facts last (List.prefix_refl _)) (ih hbefore)

theorem distinctIds_stateAfter {facts : List Fact} (hids : (facts.map Fact.factId).Nodup) :
    DistinctIds (stateAfter facts).1 ∧ ∀ path fact, (stateAfter facts).1.files path = some fact →
      fact.factId ∈ facts.map Fact.factId := by
  induction facts using List.reverseRecOn with
  | nil => exact ⟨fun _ _ _ _ h => (by cases h), fun _ _ h => (by cases h)⟩
  | append_singleton facts last ih =>
    rw [List.map_append] at hids ⊢
    obtain ⟨hinit, -, hdisjoint⟩ := List.nodup_append.mp hids
    obtain ⟨hdistinct, hmem⟩ := ih hinit
    rw [stateAfter_snoc]
    constructor
    · apply distinctIds_write hdistinct
      intro path other hfile heq
      exact hdisjoint _ (hmem path other hfile) _ (List.mem_singleton_self _) heq
    · intro path other hfile
      obtain ⟨here, hsource⟩ := file_source (stateAfter facts).1 last
      rcases hsource path other hfile with ⟨-, hid⟩ | ⟨old, hold, hid⟩
      · rw [hid]
        exact List.mem_append_right _ (List.mem_singleton_self _)
      · exact List.mem_append_left _ (hid ▸ hmem path old hold)

/-- Over writes of distinct facts, what they contradict is retained exactly when each of them is
safe. -/
theorem retained_iff_allSafe (facts : List Fact) (hids : (facts.map Fact.factId).Nodup) :
    Retained facts ↔ AllSafe facts := by
  constructor
  · intro hretained before fact hstart
    have hsettled :
        Settled (stateAfter (before ++ [fact])).1 (stateAfter (before ++ [fact])).2 := by
      rw [settled_iff]
      intro before' fact' after' existing hsplit hmet
      have hstart' : before' ++ fact' :: after' <+: facts := hsplit ▸ hstart
      rw [hsplit]
      exact (hretained before' fact' after' existing hstart' hmet).2
    rw [stateAfter_snoc] at hsettled
    have hbefore : (before.map Fact.factId).Nodup := by
      have hsub := (hstart.sublist.map Fact.factId)
      rw [List.map_append] at hsub
      exact (hids.sublist hsub).of_append_left
    refine safe_of_settled (distinctIds_stateAfter hbefore).1 (fun existing hmet => ?_) hsettled
    exact (hretained before fact [] existing hstart hmet).1.1
  · intro hsafe before fact after existing hstart hmet
    have hhere : before ++ [fact] <+: facts := by
      refine List.IsPrefix.trans ?_ hstart
      exact ⟨after, by rw [List.append_assoc]; rfl⟩
    have hapart := (hsafe before fact hhere).apart (met_ne_none hmet)
    refine ⟨marked_write_met hmet hapart, ?_⟩
    have hall : AllSafe (before ++ fact :: after) := fun before' fact' h =>
      hsafe before' fact' (h.trans hstart)
    exact settled_iff.mp (settled_of_allSafe hall) before fact after existing rfl hmet

/-! ### Writes of one slug -/

theorem allSafe_nil : AllSafe [] := by
  intro before fact h
  have hne : before ++ [fact] ≠ [] :=
    List.append_ne_nil_of_right_ne_nil before (List.cons_ne_nil fact [])
  exact absurd (List.prefix_nil.mp h) hne

theorem allSafe_snoc {facts : List Fact} {last : Fact} (h : AllSafe facts)
    (hlast : Safe (stateAfter facts).1 (stateAfter facts).2 last) : AllSafe (facts ++ [last]) := by
  intro before fact hstart
  rcases List.prefix_concat_iff.mp hstart with heq | hstart
  · obtain ⟨rfl, hfact⟩ := List.append_inj' heq rfl
    cases hfact
    exact hlast
  · exact h before fact hstart

theorem met_empty (fact : Fact) : met .empty fact = none := rfl

theorem safe_first (fact : Fact) : Safe .empty [] fact where
  plain _ hc := absurd hc List.not_mem_nil
  apart h := absurd (met_empty fact) h
  alternate _ h := absurd (met_empty fact) h
  elsewhere existing _ _ h := by
    rw [met_empty] at h
    cases h

def fridays : Fact where
  factId := ⟨['f', '1'], by decide +kernel⟩
  slug := ⟨"deploys".toList, by decide +kernel⟩
  assertion := "deploys run on Fridays"
  authoredAt := 0

def mondays : Fact :=
  { fridays with
    factId := ⟨['f', '2'], by decide +kernel⟩
    assertion := "deploys run on Mondays" }

def fridaysAgain : Fact := { fridays with factId := ⟨['f', '3'], by decide +kernel⟩ }

/-- A slug that leaves no room for a conflict's. -/
def longSlug : Slug := ⟨List.replicate 64 'a', by decide +kernel⟩

def longFridays : Fact := { fridays with slug := longSlug }

def longMondays : Fact := { mondays with slug := longSlug }

/-- The second write of a sequence meets the first one at its path. -/
theorem met_second {first second : Fact} (hpath : second.path = first.path)
    (hne : first.assertion ≠ second.assertion) :
    met (stateAfter [first]).1 second = some first := by
  have hfile : (stateAfter [first]).1.files second.path = some first := by
    have hplain := files_write_plain (met_empty first) second.path
    rw [if_pos hpath] at hplain
    exact hplain
  rw [met, hfile, Option.filter_some, if_pos (decide_eq_true hne)]

theorem met_mondays : met (stateAfter [fridays]).1 mondays = some fridays :=
  met_second rfl (by decide +kernel)

theorem met_longMondays : met (stateAfter [longFridays]).1 longMondays = some longFridays :=
  met_second rfl (by decide +kernel)

theorem conflictSlug_mondays : mondays.conflictSlug ≠ mondays.slug := by
  intro h
  exact absurd (congrArg Slug.chars h) (by decide +kernel)

theorem safe_mondays : Safe (stateAfter [fridays]).1 (stateAfter [fridays]).2 mondays where
  plain h := by
    rw [met_mondays] at h
    cases h
  apart _ := conflictSlug_mondays
  alternate _ _ _ hc := absurd hc List.not_mem_nil
  elsewhere existing slug other _ hslug _ hfile := by
    have hplain := files_write_plain (met_empty fridays) (.project, slug)
    rw [if_neg fun h => hslug (congrArg Prod.snd h)] at hplain
    cases hplain.symm.trans hfile

theorem fridays_mondays_retained : Retained [fridays, mondays] :=
  (retained_iff_allSafe [fridays, mondays] (by decide +kernel)).mpr
    (allSafe_snoc (allSafe_snoc allSafe_nil (safe_first fridays)) safe_mondays)

/-- A third write with the assertion of the first files it as uncontradicted; and at a slug of 64
characters the second fact takes the file of the first one. -/
theorem fridays_undemoted :
    ¬ Retained [fridays, mondays, fridaysAgain] ∧ ¬ Retained [longFridays, longMondays] := by
  constructor
  · intro h
    have hfile : (stateAfter [fridays, mondays, fridaysAgain]).1.files (.project, fridays.slug) =
        some fridaysAgain := by decide +kernel
    have hlater := (h [fridays] mondays [fridaysAgain] fridays (List.prefix_refl _) met_mondays).2
      fridays.assertion (.inl rfl)
    exact absurd (hlater.2 _ _ hfile rfl) (by decide +kernel)
  · intro h
    obtain ⟨⟨slug, marked, hfile, hid, hassertion, -⟩, -⟩ :=
      (h [longFridays] longMondays [] longFridays (List.prefix_refl _) met_longMondays).1
    have hsame : longMondays.conflictSlug = longMondays.slug := by decide +kernel
    rcases file_cases met_longMondays hfile with rfl | ⟨halt, ⟨hpath, -⟩ | ⟨hpath, hold⟩⟩
    · exact absurd hassertion (by decide +kernel)
    · exact halt (hpath.trans (by rw [hsame]; rfl))
    · have hplain := files_write_plain (met_empty longFridays) (longFridays.scope, slug)
      have hpath' : (longFridays.scope, slug) ≠ longFridays.path := hpath
      rw [if_neg hpath'] at hplain
      cases hplain.symm.trans hold

end Recertia.Facts
