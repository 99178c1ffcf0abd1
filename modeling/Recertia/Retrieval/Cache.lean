import Recertia.Lib.Transition
import Recertia.Lib.TtlCache
import Recertia.Retrieval.Pipeline

/-! The result cache of the pipeline, and when its answers are those of a search without it. -/
namespace Recertia.Retrieval

open Recertia.Skill Json Transition

section Cache
variable {W : Type*} (m : Machine W) (cfg : RetrievalConfig) (ttl : ℚ)

/-- `_compute_snapshot_id_unlocked`: the ids, versions and documents of the rows. -/
def Index.snapshotId (index : Index) : String :=
  let sorted := index.rows.mergeSort fun a b =>
    a.ref.skillId < b.ref.skillId || (a.ref.skillId = b.ref.skillId && a.ref.version ≤ b.ref.version)
  m.digest (Value.dumps (.list (sorted.map fun row =>
    .list [.str row.ref.skillId, .int row.ref.version, .str row.document])))

/-- `RetrievalCache._key` -/
def cacheKey (call : Call W) (snapshot : String) : String :=
  let env := call.envFingerprint.map fun (tool, version) => (tool, Value.str version)
  snapshot ++ ":" ++ m.digest (Value.dumps (.dict [("q", .str call.query)])) ++ ":" ++
    m.digest (Value.dumps (.dict env))

/-- What a search stores. The call that has stored it and its time are not part of the data. -/
structure Entry (W : Type*) where
  bundle : MemoryBundle
  snapshot : String
  call : Call W
  storedFor : ℤ

/-- A pipeline whose result cache is enabled. -/
structure Retriever (W : Type*) where
  index : Index
  cache : TtlCache String (Entry W)

/-- `RetrievalCache.lookup`, at a reading of the monotonic clock. -/
def Retriever.lookup (r : Retriever W) (call : Call W) (clock : ℚ) :
    Option (Entry W) × Retriever W :=
  let snapshot := r.index.snapshotId m
  let (found, cache) := r.cache.get ttl clock (cacheKey m call snapshot)
  (found.filter fun entry => entry.snapshot = snapshot, { r with cache })

/-- `search`, at readings of the monotonic and of the wall clock. -/
def Retriever.search (r : Retriever W) (call : Call W) (clock : ℚ) (now : ℤ) :
    Option MemoryBundle × Retriever W :=
  if call.suppress then (some { suppressed := true }, r)
  else
    let (found, r) := r.lookup m ttl call clock
    match found with
    | some entry => (some entry.bundle, r)
    | none =>
      match uncached m cfg r.index call now with
      | none => (none, r)
      | some bundle =>
        let snapshot := r.index.snapshotId m
        let cache := r.cache.set clock (cacheKey m call snapshot) ⟨bundle, snapshot, call, now⟩
        (some bundle, { r with cache })

/-- `rebuild`, to any index, drops every entry. -/
def Retriever.rebuild (_ : Retriever W) (index : Index) : Retriever W := ⟨index, .empty⟩

/-- `upsert`, to any index, drops the entries of the snapshot before. -/
def Retriever.upsert (r : Retriever W) (index : Index) : Retriever W :=
  let prior := r.index.snapshotId m
  let cache := if prior = "" then r.cache
    else r.cache.dropIf fun _ entry => entry.snapshot = prior
  ⟨index, cache⟩

inductive RetrieverMove (W : Type*)
  | search (call : Call W) (clock : ℚ) (now : ℤ)
  | rebuild (index : Index)
  | upsert (index : Index)

def retrieverSystem : System (Retriever W) (RetrieverMove W) where
  step r
    | .search call clock now => some (r.search m cfg ttl call clock now).2
    | .rebuild index => some (r.rebuild index)
    | .upsert index => some (r.upsert m index)

/-- A search answers as one without the cache, and with skills that the caller can read and whose
preconditions pass in its directory. -/
def Retriever.Exact (r : Retriever W) : RetrieverMove W → Prop
  | .search call clock now =>
    (r.search m cfg ttl call clock now).1 = uncached m cfg r.index call now ∧
      ∀ bundle, (r.search m cfg ttl call clock now).1 = some bundle → ∀ c ∈ bundle.skills,
        ∃ row ∈ r.index.rows, row.ref = c.ref ∧ row.scope ∈ call.scopes ∧
          evaluateAll m call.workdir cfg.probeBudgetUnits row.preconditions = some true
  | .rebuild _ => True
  | .upsert _ => True

/-- Two calls, each at a time, that the pipeline cannot tell apart: one query, candidates that pass
the filter for both or for neither, and no score or order that time has moved. -/
structure Alike (index : Index) (a : Call W) (atA : ℤ) (b : Call W) (atB : ℤ) : Prop where
  query : a.query = b.query
  filter : ∀ candidate ∈ merged m cfg index b.query, ∀ row, index.getRow candidate.1 = some row →
    filterRow m cfg a row = filterRow m cfg b row
  rounded : ∀ found, floored m cfg index b = some found → ∀ x ∈ found,
    m.round (demote m cfg atA x) = m.round (demote m cfg atB x)
  order : ∀ found, floored m cfg index b = some found → ∀ x ∈ found, ∀ y ∈ found,
    (demote m cfg atA y ≤ demote m cfg atA x ↔ demote m cfg atB y ≤ demote m cfg atB x)

/-- A search finds in the cache only what a call like it has stored. -/
def Retriever.FindsAlike (r : Retriever W) : RetrieverMove W → Prop
  | .search call clock now => call.suppress = false →
      ∀ entry, (r.lookup m ttl call clock).1 = some entry →
        Alike m cfg r.index entry.call entry.storedFor call now
  | .rebuild _ => True
  | .upsert _ => True

variable {m cfg}

theorem filterMerged_congr {index : Index} {a b : Call W} {candidates : List (SkillRef × ℚ)}
    (h : ∀ candidate ∈ candidates, ∀ row, index.getRow candidate.1 = some row →
      filterRow m cfg a row = filterRow m cfg b row) :
    filterMerged m cfg index a candidates = filterMerged m cfg index b candidates := by
  induction candidates with
  | nil => rfl
  | cons candidate candidates ih =>
    obtain ⟨ref, rrf⟩ := candidate
    have htail := ih fun c hc => h c (List.mem_cons_of_mem _ hc)
    unfold filterMerged
    cases hrow : index.getRow ref with
    | none => exact htail
    | some row =>
      have hfilter := h (ref, rrf) List.mem_cons_self row hrow
      simp only [hfilter, htail]

/-- What passes the filter comes from the index, and is kept. -/
theorem filterMerged_spec {index : Index} {call : Call W} {candidates : List (SkillRef × ℚ)}
    {found : List Scored} (h : filterMerged m cfg index call candidates = some found) :
    ∀ x ∈ found, x.row ∈ index.rows ∧ filterRow m cfg call x.row = some true := by
  induction candidates generalizing found with
  | nil =>
    cases h
    exact fun x hx => absurd hx List.not_mem_nil
  | cons candidate candidates ih =>
    obtain ⟨ref, rrf⟩ := candidate
    unfold filterMerged at h
    cases hrow : index.getRow ref with
    | none =>
      rw [hrow] at h
      exact ih h
    | some row =>
      rw [hrow] at h
      dsimp only at h
      cases hfilter : filterRow m cfg call row with
      | none =>
        rw [hfilter] at h
        cases h
      | some kept =>
        rw [hfilter] at h
        cases kept with
        | false => exact ih h
        | true =>
          obtain ⟨tail, htail, rfl⟩ := Option.map_eq_some_iff.mp h
          intro x hx
          rcases List.mem_cons.mp hx with rfl | hx
          · exact ⟨List.mem_of_find?_eq_some hrow, hfilter⟩
          · exact ih htail x hx

theorem row_of_mem_rerank {query : String} {survivors : List Scored} {x : Scored}
    (hx : x ∈ rerank m cfg query survivors) : ∃ y ∈ survivors, x.row = y.row := by
  unfold rerank byScore at hx
  rw [List.mem_mergeSort, List.mem_append] at hx
  rcases hx with hx | hx
  · obtain ⟨y, hy, rfl⟩ := List.mem_map.mp hx
    exact ⟨y, List.mem_of_mem_take hy, rfl⟩
  · obtain ⟨y, hy, rfl⟩ := List.mem_map.mp hx
    exact ⟨y, List.mem_of_mem_drop hy, rfl⟩

/-- A row that is kept can be read by the caller, and its preconditions pass. -/
theorem filterRow_eq_true {call : Call W} {row : Row} (h : filterRow m cfg call row = some true) :
    row.scope ∈ call.scopes ∧
      evaluateAll m call.workdir cfg.probeBudgetUnits row.preconditions = some true := by
  unfold filterRow at h
  split at h
  · cases h
  · split at h
    · cases h
    · split at h
      · cases h
      · rename_i hscope
        split at h
        · cases h
        · exact ⟨not_not.mp hscope, h⟩

theorem mem_uncached {index : Index} {call : Call W} {now : ℤ} {bundle : MemoryBundle}
    (h : uncached m cfg index call now = some bundle) {c : SkillCandidateRef}
    (hc : c ∈ bundle.skills) : ∃ row ∈ index.rows, row.ref = c.ref ∧ row.scope ∈ call.scopes ∧
      evaluateAll m call.workdir cfg.probeBudgetUnits row.preconditions = some true := by
  unfold uncached at h
  split at h
  · rw [← Option.some.inj h] at hc
    cases hc
  · obtain ⟨found, hfound, rfl⟩ := Option.map_eq_some_iff.mp h
    obtain ⟨survivors, hsurvivors, rfl⟩ := Option.map_eq_some_iff.mp hfound
    obtain ⟨x, hx, rfl⟩ := List.mem_map.mp hc
    have hfloor := (List.mem_mergeSort.mp (List.mem_of_mem_take hx))
    obtain ⟨y, hy, hrow⟩ := row_of_mem_rerank (List.mem_filter.mp hfloor).1
    obtain ⟨hmem, hkept⟩ := filterMerged_spec hsurvivors y hy
    exact ⟨y.row, hmem, congrArg Row.ref hrow.symm, filterRow_eq_true hkept⟩

theorem topCandidates_congr {index : Index} {query : String} {atA atB : ℤ} {found : List Scored}
    (hrounded : ∀ x ∈ found, m.round (demote m cfg atA x) = m.round (demote m cfg atB x))
    (horder : ∀ x ∈ found, ∀ y ∈ found,
      (demote m cfg atA y ≤ demote m cfg atA x ↔ demote m cfg atB y ≤ demote m cfg atB x)) :
    topCandidates m cfg index query atA found = topCandidates m cfg index query atB found := by
  have hsort : byScore (demote m cfg atA) found = byScore (demote m cfg atB) found := by
    have hmap := List.map_mergeSort (f := id) (l := found)
      (r := fun a b => decide (demote m cfg atA b ≤ demote m cfg atA a))
      (s := fun a b => decide (demote m cfg atB b ≤ demote m cfg atB a))
      fun a ha b hb => decide_eq_decide.mpr (horder a ha b hb)
    rw [List.map_id, List.map_id] at hmap
    exact hmap
  unfold topCandidates
  rw [hsort]
  apply List.map_congr_left
  intro x hx
  rw [hrounded x (List.mem_mergeSort.mp (List.mem_of_mem_take hx))]

/-- Calls that the pipeline cannot tell apart have one answer. -/
theorem Alike.uncached_eq {index : Index} {a b : Call W} {atA atB : ℤ}
    (h : Alike m cfg index a atA b atB) (ha : a.suppress = false) (hb : b.suppress = false) :
    uncached m cfg index a atA = uncached m cfg index b atB := by
  have hfloored : floored m cfg index a = floored m cfg index b := by
    unfold floored
    rw [h.query, filterMerged_congr h.filter]
  unfold uncached
  rw [ha, hb, if_neg Bool.false_ne_true, if_neg Bool.false_ne_true, hfloored, h.query]
  cases hfound : floored m cfg index b with
  | none => rfl
  | some found =>
    rw [Option.map_some, Option.map_some,
      topCandidates_congr (h.rounded found hfound) (h.order found hfound)]

/-- Every entry is what a search in the present index has stored. -/
def Retriever.Ok (m : Machine W) (cfg : RetrievalConfig) (r : Retriever W) : Prop :=
  r.cache.Holds fun _ entry => entry.snapshot = r.index.snapshotId m ∧
    entry.call.suppress = false ∧
      uncached m cfg r.index entry.call entry.storedFor = some entry.bundle

theorem lookup_ok {r : Retriever W} (h : r.Ok m cfg) (call : Call W) (clock : ℚ) :
    (r.lookup m ttl call clock).2.Ok m cfg ∧
      (r.lookup m ttl call clock).2.index = r.index ∧
      ∀ entry, (r.lookup m ttl call clock).1 = some entry → entry.call.suppress = false ∧
        uncached m cfg r.index entry.call entry.storedFor = some entry.bundle := by
  obtain ⟨hcache, hentry⟩ := TtlCache.get_holds h ttl clock (cacheKey m call (r.index.snapshotId m))
  refine ⟨hcache, rfl, fun entry hfound => ?_⟩
  exact (hentry entry (Option.filter_eq_some_iff.mp hfound).1).2

theorem search_ok {r : Retriever W} (h : r.Ok m cfg) (call : Call W) (clock : ℚ) (now : ℤ) :
    (r.search m cfg ttl call clock now).2.Ok m cfg := by
  obtain ⟨hok, hindex, -⟩ := lookup_ok ttl h call clock
  unfold Retriever.search
  split
  · exact h
  · rename_i hsuppress
    dsimp only
    cases hfound : (r.lookup m ttl call clock).1 with
    | some entry => exact hok
    | none =>
      dsimp only
      cases hbundle : uncached m cfg (r.lookup m ttl call clock).2.index call now with
      | none => exact hok
      | some bundle =>
        exact TtlCache.set_holds hok clock ⟨rfl, Bool.eq_false_iff.mpr hsuppress, hbundle⟩

theorem retriever_step_ok {r t : Retriever W} {move : RetrieverMove W} (h : r.Ok m cfg)
    (ht : (retrieverSystem m cfg ttl).step r move = some t) : t.Ok m cfg := by
  cases move with
  | search call clock now =>
    cases ht
    exact search_ok ttl h call clock now
  | rebuild index =>
    cases ht
    exact TtlCache.holds_empty
  | upsert index =>
    cases ht
    -- Every entry is of the snapshot before, so none is left.
    have hprior : r.index.snapshotId m ≠ "" := m.digestNonempty _
    unfold Retriever.Ok Retriever.upsert
    dsimp only
    rw [if_neg hprior]
    refine TtlCache.dropIf_holds h _ fun k entry ⟨hsnapshot, _⟩ hkept => ?_
    rw [decide_eq_false_iff_not] at hkept
    exact absurd hsnapshot hkept

theorem search_exact {r : Retriever W} {move : RetrieverMove W} (h : r.Ok m cfg)
    (hfinds : r.FindsAlike m cfg ttl move) : r.Exact m cfg ttl move := by
  cases move with
  | rebuild index => trivial
  | upsert index => trivial
  | search call clock now =>
    have hanswer : (r.search m cfg ttl call clock now).1 = uncached m cfg r.index call now := by
      obtain ⟨-, hindex, hentry⟩ := lookup_ok ttl h call clock
      unfold Retriever.search
      split
      · rename_i hsuppress
        unfold uncached
        rw [if_pos hsuppress]
      · rename_i hsuppress
        have hfalse := Bool.eq_false_iff.mpr hsuppress
        dsimp only
        cases hfound : (r.lookup m ttl call clock).1 with
        | some entry =>
          obtain ⟨hstored, hbundle⟩ := hentry entry hfound
          exact hbundle.symm.trans ((hfinds hfalse entry hfound).uncached_eq hstored hfalse)
        | none =>
          dsimp only
          rw [hindex]
          cases uncached m cfg r.index call now <;> rfl
    exact ⟨hanswer, fun bundle hbundle c hc => mem_uncached (hanswer ▸ hbundle) hc⟩

/-- In a run of searches and index changes, every search answers as one without the cache, if every
search finds in the cache only what a call like it has stored. -/
theorem search_eq_uncached (index : Index) (moves : List (RetrieverMove W))
    (h : (retrieverSystem m cfg ttl).Along (fun r move _ => r.FindsAlike m cfg ttl move)
      ⟨index, .empty⟩ moves) :
    (retrieverSystem m cfg ttl).Along (fun r move _ => r.Exact m cfg ttl move)
      ⟨index, .empty⟩ moves :=
  System.along_of_invariant (I := fun r => r.Ok m cfg)
    (fun _ _ _ hok ht _ => retriever_step_ok ttl hok ht)
    (fun _ _ _ hok _ hfinds => search_exact ttl hok hfinds) TtlCache.holds_empty h

end Cache

theorem digest_nonempty (s : String) : "#" ++ s ≠ "" := by
  intro h
  have hlength := congrArg String.length h
  rw [String.length_append, String.length_empty] at hlength
  have hone : "#".length = 1 := rfl
  omega

/-- A machine with two directories, of which one has the file that is asked for. -/
def twoDirs : Machine Bool where
  bm25 documents _ := documents.map Prod.fst
  cosine _ _ := 1
  decay _ := 1
  round score := score
  probe _ _ workdir := if workdir then .passed else .failed
  digest s := "#" ++ s
  digestNonempty := digest_nonempty

/-- One skill, which asks for a file. -/
def oneSkill : Index :=
  ⟨[{ ref := ⟨"bump-dep", 1⟩, scope := .project, lifecycle := .approved, active := true,
      curation := .humanAuthored, applications := 40, lastUsedAt := none, toolFingerprint := [],
      preconditions := [⟨.fileExists, "pyproject.toml", []⟩], document := "bump" }]⟩

theorem Alike.refl {W : Type*} (m : Machine W) (cfg : RetrievalConfig) (index : Index)
    (call : Call W) (now : ℤ) : Alike m cfg index call now call now :=
  ⟨rfl, fun _ _ _ _ => rfl, fun _ _ _ _ => rfl, fun _ _ _ _ _ _ => Iff.rfl⟩

/-- The same search twice at a time: the second finds what the first has stored. -/
theorem search_eq_uncached_twice :
    (retrieverSystem twoDirs {} 30).Along (fun r move _ => r.Exact twoDirs {} 30 move)
      ⟨oneSkill, .empty⟩ [.search { query := "bump", workdir := true } 0 0,
        .search { query := "bump", workdir := true } 1 0] := by
  let call : Call Bool := { query := "bump", workdir := true }
  apply search_eq_uncached
  intro r hr
  cases hr
  refine ⟨fun _ entry hentry => ?_, fun t ht => ⟨fun _ entry hentry => ?_, trivial⟩⟩
  · cases hentry
  · have hstored : ((Retriever.search twoDirs {} 30 ⟨oneSkill, .empty⟩ call 0 0).2.lookup twoDirs
        30 call 1).1.map (fun entry => (entry.call, entry.storedFor)) = some (call, 0) := by
      decide +kernel
    rw [hentry, Option.map_some, Option.some.injEq, Prod.mk.injEq] at hstored
    rw [hstored.1, hstored.2]
    exact Alike.refl _ _ _ _ _

/-- A search in a directory without the file, behind one in the directory that has it. -/
theorem cached_search_ignores_workdir : ¬ ∀ moves : List (RetrieverMove Bool),
    (retrieverSystem twoDirs {} 30).Along (fun r move _ => r.Exact twoDirs {} 30 move)
      ⟨oneSkill, .empty⟩ moves := by
  intro h
  let r : Retriever Bool :=
    (Retriever.search twoDirs {} 30 ⟨oneSkill, .empty⟩ { query := "bump", workdir := true } 0 0).2
  let other : Call Bool := { query := "bump", workdir := false }
  have hexact : r.Exact twoDirs {} 30 (.search other 1 1) :=
    ((h [.search { query := "bump", workdir := true } 0 0, .search other 1 1] r rfl).2 _ rfl).1
  have hcached : (r.search twoDirs {} 30 other 1 1).1.map (·.skills.length) = some 1 := by
    decide +kernel
  have huncached : (uncached twoDirs {} r.index other 1).map (·.skills.length) = some 0 := by
    decide +kernel
  rw [hexact.1, huncached] at hcached
  cases hcached

end Recertia.Retrieval
