import Recertia.Lib.Text
import Recertia.Lib.Transition
import Recertia.Skill.Operations

/-! The files of the lineage index: a log of edges, a map of it that lookups read, and the maps that
open indexes keep. When a lookup by a new index finds what the log holds. -/
namespace Recertia.Skill

open Transition

/-- A line of `lineage.jsonl`. -/
structure Edge where
  source : String
  target : String
  deriving DecidableEq, Repr

/-- `_SKILL_ID_PATTERN`: words of lower-case letters and digits, between single hyphens. -/
def skillIdPattern (skillId : String) : Bool :=
  (skillId.toList.splitOn '-').all fun word =>
    word ≠ [] && word.all fun c => ('a' ≤ c && c ≤ 'z') || c.isDigit

/-- A version under the path that its fields give. -/
structure VersionDoc where
  ref : SkillRef
  version : SkillVersion
  idPattern : skillIdPattern ref.skillId = true

/-- The lines that `record` writes for a version. -/
def VersionDoc.edges (doc : VersionDoc) : List Edge :=
  (sourceKeys doc.ref doc.version).map fun key => ⟨key, doc.ref.target⟩

/-- `bucket = mapping.setdefault(source, [])` with the target behind the others, if it is new. -/
def addEdge (mapping : LineageIndex) (edge : Edge) : LineageIndex :=
  mapping.upsert edge.source [edge.target] fun bucket =>
    if bucket.contains edge.target then bucket else bucket ++ [edge.target]

def hasEdge (mapping : LineageIndex) (edge : Edge) : Bool :=
  ((mapping.get? edge.source).getD []).contains edge.target

/-- `_replay_wal`, over the lines of the log; a line without a source or a target is left out. -/
def replayWal (log : List Edge) : LineageIndex :=
  log.foldl (fun mapping edge =>
    if edge.source = "" ∨ edge.target = "" then mapping else addEdge mapping edge) .empty

/-- `lineage.jsonl` and, where it is there, `lineage.idx.json`. -/
structure LineageFiles where
  log : List Edge
  idx : Option LineageIndex

/-- The files, and the map of every open index that has loaded one. -/
structure LineageWorld where
  files : LineageFiles
  maps : ℕ → Option LineageIndex

/-- What an index without a map reads. -/
def LineageFiles.fresh (files : LineageFiles) : LineageIndex :=
  files.idx.getD (replayWal files.log)

def LineageWorld.setMap (w : LineageWorld) (i : ℕ) (mapping : Option LineageIndex) :
    LineageWorld :=
  { w with maps := fun j => if j = i then mapping else w.maps j }

/-- `_load_map`: a replay that finds edges is written out as the index file. -/
def LineageWorld.loadMap (w : LineageWorld) (i : ℕ) : LineageWorld × LineageIndex :=
  match w.maps i with
  | some mapping => (w, mapping)
  | none =>
    match w.files.idx with
    | some mapping => (w.setMap i (some mapping), mapping)
    | none =>
      let mapping := replayWal w.files.log
      let idx := if mapping.rows = [] then none else some mapping
      ({ w with files := { w.files with idx } }.setMap i (some mapping), mapping)

/-- One pass of the loop of `record`: the map, and whether it has changed. -/
def recordEdge (found : LineageIndex × Bool) (edge : Edge) : LineageIndex × Bool :=
  (addEdge found.1 edge, found.2 || !hasEdge found.1 edge)

/-- `LineageIndex.record`, by the index `i`: the lines go to the log, and a map that they change is
written out. -/
def LineageWorld.record (w : LineageWorld) (i : ℕ) (doc : VersionDoc) : LineageWorld :=
  let (w, mapping) := w.loadMap i
  let (mapping, changed) := doc.edges.foldl recordEdge (mapping, false)
  let files := { log := w.files.log ++ doc.edges,
                 idx := if changed then some mapping else w.files.idx }
  { w with files }.setMap i (some mapping)

/-- A record that ends behind its first `rows` lines, with the process of the index. -/
def LineageWorld.crash (w : LineageWorld) (i : ℕ) (doc : VersionDoc) (rows : ℕ) : LineageWorld :=
  let (w, _) := w.loadMap i
  { w with files := { w.files with log := w.files.log ++ doc.edges.take rows } }.setMap i none

inductive LineageCall
  | record (i : ℕ) (doc : VersionDoc)
  | crash (i : ℕ) (doc : VersionDoc) (rows : ℕ)
  | lookup (i : ℕ)
  | close (i : ℕ)

/-- Calls of any indexes on one directory; an index is opened by its first call. -/
def lineageSystem : System LineageWorld LineageCall where
  step w
    | .record i doc => some (w.record i doc)
    | .crash i doc rows => some (w.crash i doc rows)
    | .lookup i => some (w.loadMap i).1
    | .close i => some (w.setMap i none)

def LineageWorld.start : LineageWorld := ⟨⟨[], none⟩, fun _ => none⟩

/-- A lookup by a new index gives the versions that a replay of the log gives. -/
def LineageFiles.Exact (files : LineageFiles) : Prop :=
  ∀ item ref, ref ∈ lookup files.fresh item ↔ ref ∈ lookup (replayWal files.log) item

/-- A record writes no map that misses an edge of the log and not of its own, and a record that ends
early has left behind the index file only lines that the log had. -/
def LineageWorld.Covered (w : LineageWorld) : LineageCall → Prop
  | .record i doc => ∀ mapping, w.maps i = some mapping →
      (∀ edge ∈ doc.edges, hasEdge mapping edge = true) ∨
        ∀ edge ∈ w.files.log, hasEdge mapping edge = true ∨ edge ∈ doc.edges
  | .crash i doc rows => (w.files.idx = none ∧ (w.maps i = none → w.files.log = [])) ∨
      ∀ edge ∈ doc.edges.take rows, edge ∈ w.files.log
  | .lookup _ => True
  | .close _ => True

theorem hasEdge_addEdge (mapping : LineageIndex) (edge e : Edge) :
    hasEdge (addEdge mapping edge) e = true ↔ hasEdge mapping e = true ∨ e = edge := by
  obtain ⟨source, target⟩ := e
  unfold hasEdge addEdge
  simp only [Table.get?_upsert, List.contains_iff_mem]
  by_cases hsource : source = edge.source
  · rw [if_pos hsource, hsource]
    have hedge : (⟨edge.source, target⟩ : Edge) = edge ↔ target = edge.target := by
      cases edge
      simp
    rw [hedge]
    cases mapping.get? edge.source with
    | none => simp
    | some bucket =>
      simp only [Option.map_some, Option.getD_some]
      by_cases hmem : edge.target ∈ bucket
      · rw [if_pos hmem]
        refine ⟨Or.inl, fun h => ?_⟩
        rcases h with h | h
        · exact h
        · exact h ▸ hmem
      · rw [if_neg hmem, List.mem_append, List.mem_singleton]
  · have hne : (⟨source, target⟩ : Edge) ≠ edge := fun h => hsource (congrArg Edge.source h)
    rw [if_neg hsource]
    exact ⟨Or.inl, fun h => h.resolve_right hne⟩

theorem hasEdge_foldl_addEdge (mapping : LineageIndex) (edges : List Edge) (e : Edge) :
    hasEdge (edges.foldl addEdge mapping) e = true ↔ hasEdge mapping e = true ∨ e ∈ edges := by
  induction edges generalizing mapping with
  | nil => simp
  | cons edge edges ih => rw [List.foldl_cons, ih, hasEdge_addEdge, List.mem_cons, or_assoc]

theorem hasEdge_empty (e : Edge) : hasEdge .empty e = false := rfl

/-- A replay has the edges of the log that have both ends. -/
theorem hasEdge_replayWal {log : List Edge} (hlog : ∀ e ∈ log, ¬ (e.source = "" ∨ e.target = ""))
    (e : Edge) : hasEdge (replayWal log) e = true ↔ e ∈ log := by
  have hfold : replayWal log = log.foldl addEdge .empty := by
    apply List.foldl_ext
    intro mapping edge hedge
    rw [if_neg (hlog edge hedge)]
  rw [hfold, hasEdge_foldl_addEdge, hasEdge_empty]
  simp

theorem recordEdge_fst (edges : List Edge) (found : LineageIndex × Bool) :
    (edges.foldl recordEdge found).1 = edges.foldl addEdge found.1 := by
  induction edges generalizing found with
  | nil => rfl
  | cons edge edges ih => exact ih (recordEdge found edge)

/-- A record changes the map if one of its edges is not in it. -/
theorem recordEdge_snd (edges : List Edge) (found : LineageIndex × Bool) :
    (edges.foldl recordEdge found).2 = false ↔
      found.2 = false ∧ ∀ e ∈ edges, hasEdge found.1 e = true := by
  induction edges generalizing found with
  | nil => simp
  | cons edge edges ih =>
    rw [List.foldl_cons, ih]
    simp only [recordEdge, Bool.or_eq_false_iff, Bool.not_eq_false', List.forall_mem_cons,
      hasEdge_addEdge]
    constructor
    · rintro ⟨⟨hfound, hedge⟩, htail⟩
      refine ⟨hfound, hedge, fun e he => ?_⟩
      rcases htail e he with h | h
      · exact h
      · exact h ▸ hedge
    · rintro ⟨hfound, hedge, htail⟩
      exact ⟨⟨hfound, hedge⟩, fun e he => Or.inl (htail e he)⟩

theorem mem_lookup {mapping : LineageIndex} {item : Revoke} {ref : SkillRef} :
    ref ∈ lookup mapping item ↔ ∃ target,
      hasEdge mapping ⟨item.sourceKind ++ ":" ++ item.sourceId, target⟩ = true ∧
        parseTarget target = some ref := by
  unfold lookup hasEdge
  simp only [List.mem_filterMap, List.contains_iff_mem]

/-- A skill id is not empty, and has no `@`. -/
theorem skillIdPattern_spec {skillId : String} (h : skillIdPattern skillId = true) :
    skillId.toList ≠ [] ∧ '@' ∉ skillId.toList := by
  have hwords : ∀ word ∈ skillId.toList.splitOn '-',
      word ≠ [] ∧ ∀ c ∈ word, ((decide ('a' ≤ c) && decide (c ≤ 'z')) || c.isDigit) = true := by
    intro word hword
    have hboth := List.all_eq_true.mp h word hword
    rw [Bool.and_eq_true, decide_eq_true_eq, List.all_eq_true] at hboth
    exact hboth
  constructor
  · intro hnil
    rw [hnil] at hwords
    exact (hwords [] (by simp)).1 rfl
  · intro hat
    have hjoin : ['-'].intercalate (skillId.toList.splitOn '-') = skillId.toList :=
      List.intercalate_splitOn '-'
    rw [← hjoin] at hat
    rcases Text.mem_intercalate hat with hsep | ⟨word, hword, hc⟩
    · exact absurd hsep (by decide)
    · exact absurd ((hwords word hword).2 '@' hc) (by decide)

/-- `_parse_target` reads back what `record` writes. -/
theorem parseTarget_target {ref : SkillRef} (h : skillIdPattern ref.skillId = true) :
    parseTarget ref.target = some ref := by
  obtain ⟨hne, hat⟩ := skillIdPattern_spec h
  have htext : ref.target.toList =
      ref.skillId.toList ++ '@' :: Nat.toDigits 10 ref.version := by
    unfold SkillRef.target
    rw [String.toList_append, String.toList_append, Nat.toString_eq_ofList_toDigits]
    simp
  have hall : ∀ c ∈ ref.skillId.toList, decide (c ≠ '@') = true := by
    intro c hc
    rw [decide_eq_true_eq]
    rintro rfl
    exact hat hc
  have htake : ref.target.toList.takeWhile (· ≠ '@') = ref.skillId.toList := by
    rw [htext, List.takeWhile_append_of_pos hall]
    simp
  have hdrop : (ref.target.toList.dropWhile (· ≠ '@')).drop 1 =
      Nat.toDigits 10 ref.version := by
    rw [htext, List.dropWhile_append_of_pos hall]
    simp
  have hdigits : (Nat.toDigits 10 ref.version).all Char.isDigit = true :=
    List.all_eq_true.mpr fun c hc => Nat.isDigit_of_mem_toDigits (by decide) (by decide) hc
  have hvalue : (Nat.toDigits 10 ref.version).foldl
      (fun n c => 10 * n + (c.toNat - 48)) 0 = ref.version :=
    Nat.ofDigitChars_toDigits (by decide) (by decide)
  unfold parseTarget
  simp only [htake, hdrop, hdigits, hvalue, String.ofList_toList]
  rw [if_neg]
  simp [hne, Nat.toDigits_ne_nil]

/-- An edge that a record writes: a query finds its source, and its target reads back. -/
theorem edge_of_doc {doc : VersionDoc} {edge : Edge} (h : edge ∈ doc.edges) :
    (∃ item : Revoke, edge.source = item.sourceKind ++ ":" ++ item.sourceId) ∧
      parseTarget edge.target = some doc.ref ∧ edge.target = doc.ref.target := by
  obtain ⟨key, hkey, rfl⟩ := List.mem_map.mp h
  refine ⟨?_, parseTarget_target doc.idPattern, rfl⟩
  have hsource : ∀ (kind : String) (ids : List String), key ∈ ids.map (kind ++ ":" ++ ·) →
      ∃ item : Revoke, key = item.sourceKind ++ ":" ++ item.sourceId := by
    intro kind ids hmem
    obtain ⟨id, -, rfl⟩ := List.mem_map.mp hmem
    exact ⟨⟨kind, id, ""⟩, rfl⟩
  simp only [sourceKeys, List.mem_append] at hkey
  rcases hkey with (((hcase | hrun) | hsession) | hcontributor) | hskill
  · exact hsource "case" _ hcase
  · exact hsource "run" _ hrun
  · exact hsource "session" _ hsession
  · exact hsource "contributor" _ hcontributor
  · exact hsource "skill" [doc.ref.target] hskill

theorem hasEdge_replay_written {log : List Edge}
    (hlog : ∀ e ∈ log, ∃ doc : VersionDoc, e ∈ doc.edges) (e : Edge) :
    hasEdge (replayWal log) e = true ↔ e ∈ log := by
  apply hasEdge_replayWal
  intro edge hedge
  obtain ⟨doc, hdoc⟩ := hlog edge hedge
  obtain ⟨⟨item, hsource⟩, hparse, -⟩ := edge_of_doc hdoc
  rintro (hempty | hempty)
  · rw [hsource] at hempty
    have hlength := congrArg String.length hempty
    simp at hlength
  · rw [hempty] at hparse
    exact absurd hparse (by simp [parseTarget])

/-- Records have written every line of the log, and every map holds edges of the log. -/
structure LineageWorld.Sound (w : LineageWorld) : Prop where
  written : ∀ e ∈ w.files.log, ∃ doc : VersionDoc, e ∈ doc.edges
  idx : ∀ mapping, w.files.idx = some mapping →
    ∀ e, hasEdge mapping e = true → e ∈ w.files.log
  maps : ∀ i mapping, w.maps i = some mapping →
    ∀ e, hasEdge mapping e = true → e ∈ w.files.log

section Files
variable {w : LineageWorld} (h : w.Sound)
include h

theorem LineageWorld.Sound.hasEdge_replay (e : Edge) :
    hasEdge (replayWal w.files.log) e = true ↔ e ∈ w.files.log :=
  hasEdge_replay_written h.written e

theorem LineageWorld.Sound.fresh_mem {e : Edge} (he : hasEdge w.files.fresh e = true) :
    e ∈ w.files.log := by
  unfold LineageFiles.fresh at he
  cases hidx : w.files.idx with
  | none =>
    rw [hidx] at he
    exact (h.hasEdge_replay e).mp he
  | some mapping =>
    rw [hidx] at he
    exact h.idx mapping hidx e he

/-- Lookups by a new index are exact if it reads every edge of the log. -/
theorem LineageWorld.Sound.exact_iff :
    w.files.Exact ↔ ∀ e ∈ w.files.log, hasEdge w.files.fresh e = true := by
  constructor
  · intro hexact e he
    obtain ⟨doc, hdoc⟩ := h.written e he
    obtain ⟨⟨item, hsource⟩, hparse, htarget⟩ := edge_of_doc hdoc
    have hmem : doc.ref ∈ lookup (replayWal w.files.log) item :=
      mem_lookup.mpr ⟨e.target, hsource ▸ (h.hasEdge_replay e).mpr he, hparse⟩
    obtain ⟨target, hhas, hparse'⟩ := mem_lookup.mp ((hexact item doc.ref).mpr hmem)
    -- Only the target of `doc` reads back as `doc.ref`.
    obtain ⟨doc', hdoc'⟩ := h.written _ (h.fresh_mem hhas)
    obtain ⟨-, hread, htarget'⟩ := edge_of_doc hdoc'
    have href : doc'.ref = doc.ref := Option.some.inj (hread.symm.trans hparse')
    have hsame : target = e.target := by
      rw [htarget, ← href]
      exact htarget'
    rw [hsame, ← hsource] at hhas
    exact hhas
  · intro hall item ref
    rw [mem_lookup, mem_lookup]
    have hiff : ∀ e, hasEdge w.files.fresh e = true ↔
        hasEdge (replayWal w.files.log) e = true := by
      intro e
      rw [h.hasEdge_replay]
      exact ⟨h.fresh_mem, hall e⟩
    simp only [hiff]

end Files

theorem start_sound : LineageWorld.start.Sound where
  written := fun e he => by cases he
  idx := fun mapping hidx => by cases hidx
  maps := fun i mapping hmap => by cases hmap

theorem LineageWorld.Sound.setMap {w : LineageWorld} (h : w.Sound) (i : ℕ)
    {mapping : Option LineageIndex}
    (hmapping : ∀ m, mapping = some m → ∀ e, hasEdge m e = true → e ∈ w.files.log) :
    (w.setMap i mapping).Sound where
  written := h.written
  idx := h.idx
  maps := fun j m hm => by
    simp only [LineageWorld.setMap] at hm
    split at hm
    · exact hmapping m hm
    · exact h.maps j m hm

/-- What a load leaves. -/
structure Loaded (w : LineageWorld) (i : ℕ) (out : LineageWorld × LineageIndex) : Prop where
  sound : out.1.Sound
  log : out.1.files.log = w.files.log
  fresh : out.1.files.fresh = w.files.fresh
  mapped : ∀ mapping, w.maps i = some mapping → out = (w, mapping)
  unmapped : w.maps i = none → out.2 = w.files.fresh
  mem : ∀ e, hasEdge out.2 e = true → e ∈ w.files.log
  idx : out.1.files.idx = none ↔ w.files.idx = none ∧ (w.maps i = none → w.files.log = [])

theorem replayWal_rows {w : LineageWorld} (h : w.Sound) :
    (replayWal w.files.log).rows = [] ↔ w.files.log = [] := by
  constructor
  · intro hrows
    apply List.eq_nil_iff_forall_not_mem.mpr
    intro e he
    have hhas := (h.hasEdge_replay e).mpr he
    unfold hasEdge Table.get? at hhas
    rw [hrows] at hhas
    cases hhas
  · intro hlog
    rw [hlog]
    rfl

theorem loadMap_spec {w : LineageWorld} (h : w.Sound) (i : ℕ) : Loaded w i (w.loadMap i) := by
  unfold LineageWorld.loadMap
  cases hmap : w.maps i with
  | some mapping =>
    refine ⟨h, rfl, rfl, fun m hm => ?_, fun hnone => ?_, h.maps i mapping hmap, ?_⟩
    · rw [Option.some.inj (hmap.symm.trans hm)]
    · rw [hmap] at hnone
      cases hnone
    · simp [hmap]
  | none =>
    have hmapped : ∀ {out : LineageWorld × LineageIndex} (mapping : LineageIndex),
        w.maps i = some mapping → out = (w, mapping) := by
      intro out mapping hsome
      rw [hmap] at hsome
      cases hsome
    cases hidx : w.files.idx with
    | some mapping =>
      have hfresh : mapping = w.files.fresh := by
        unfold LineageFiles.fresh
        rw [hidx, Option.getD_some]
      refine ⟨h.setMap i fun m hm => ?_, rfl, rfl, hmapped, fun _ => hfresh, h.idx mapping hidx,
        ?_⟩
      · rw [← Option.some.inj hm]
        exact h.idx mapping hidx
      · simp [LineageWorld.setMap, hidx]
    | none =>
      have hfresh : replayWal w.files.log = w.files.fresh := by
        unfold LineageFiles.fresh
        rw [hidx, Option.getD_none]
      have hmem : ∀ e, hasEdge (replayWal w.files.log) e = true → e ∈ w.files.log :=
        fun e => (h.hasEdge_replay e).mp
      have hsound : LineageWorld.Sound { w with files := { w.files with
          idx := if (replayWal w.files.log).rows = [] then none
            else some (replayWal w.files.log) } } := by
        refine ⟨h.written, fun m hm => ?_, h.maps⟩
        dsimp only at hm
        split at hm
        · cases hm
        · rw [← Option.some.inj hm]
          exact hmem
      refine ⟨hsound.setMap i fun m hm => ?_, rfl, ?_, hmapped, fun _ => hfresh, hmem, ?_⟩
      · rw [← Option.some.inj hm]
        exact hmem
      · simp only [LineageWorld.setMap, LineageFiles.fresh, hidx]
        split <;> rfl
      · simp only [LineageWorld.setMap, ← replayWal_rows h]
        simp [hmap, hidx]

theorem record_sound {w : LineageWorld} (h : w.Sound) (i : ℕ) (doc : VersionDoc) :
    (w.record i doc).Sound := by
  have hload := loadMap_spec h i
  unfold LineageWorld.record
  generalize w.loadMap i = out at hload ⊢
  have hmem : ∀ e, hasEdge (doc.edges.foldl recordEdge (out.2, false)).1 e = true →
      e ∈ out.1.files.log ++ doc.edges := by
    intro e he
    rw [recordEdge_fst, hasEdge_foldl_addEdge] at he
    rw [List.mem_append, hload.log]
    exact he.imp_left (hload.mem e)
  apply LineageWorld.Sound.setMap
  · refine ⟨fun e he => ?_, fun m hm e he => ?_, fun j m hm e he => ?_⟩
    · rcases List.mem_append.mp he with hold | hnew
      · exact hload.sound.written e hold
      · exact ⟨doc, hnew⟩
    · dsimp only at hm
      split at hm
      · rw [← Option.some.inj hm] at he
        exact hmem e he
      · exact List.mem_append_left _ (hload.sound.idx m hm e he)
    · exact List.mem_append_left _ (hload.sound.maps j m hm e he)
  · intro m hm e he
    rw [← Option.some.inj hm] at he
    exact hmem e he

theorem crash_sound {w : LineageWorld} (h : w.Sound) (i : ℕ) (doc : VersionDoc) (rows : ℕ) :
    (w.crash i doc rows).Sound := by
  have hload := loadMap_spec h i
  unfold LineageWorld.crash
  generalize w.loadMap i = out at hload ⊢
  apply LineageWorld.Sound.setMap
  · refine ⟨fun e he => ?_, fun m hm e he => ?_, fun j m hm e he => ?_⟩
    · rcases List.mem_append.mp he with hold | hnew
      · exact hload.sound.written e hold
      · exact ⟨doc, List.mem_of_mem_take hnew⟩
    · exact List.mem_append_left _ (hload.sound.idx m hm e he)
    · exact List.mem_append_left _ (hload.sound.maps j m hm e he)
  · intro m hm
    cases hm

/-- With exact files, a record leaves exact files if the map that it writes misses nothing. -/
theorem record_exact_iff {w : LineageWorld} (h : w.Sound) (hexact : w.files.Exact) (i : ℕ)
    (doc : VersionDoc) : (w.record i doc).files.Exact ↔ w.Covered (.record i doc) := by
  rw [(record_sound h i doc).exact_iff]
  have hfull := h.exact_iff.mp hexact
  have hload := loadMap_spec h i
  unfold LineageWorld.record
  generalize w.loadMap i = out at hload ⊢
  -- What the covering asks of a map that was there holds of the loaded map in any case.
  have hcovered : w.Covered (.record i doc) ↔ (∀ e ∈ doc.edges, hasEdge out.2 e = true) ∨
      ∀ e ∈ w.files.log, hasEdge out.2 e = true ∨ e ∈ doc.edges := by
    cases hmap : w.maps i with
    | none =>
      rw [hload.unmapped hmap]
      constructor
      · exact fun _ => Or.inr fun e he => Or.inl (hfull e he)
      · intro _ mapping hsome
        rw [hmap] at hsome
        cases hsome
    | some mapping =>
      have hout : out.2 = mapping := congrArg Prod.snd (hload.mapped mapping hmap)
      rw [hout]
      constructor
      · exact fun hall => hall mapping hmap
      · intro hall m hm
        rw [hmap] at hm
        exact Option.some.inj hm ▸ hall
  rw [hcovered]
  simp only [LineageWorld.setMap, LineageFiles.fresh, hload.log]
  cases hchanged : (doc.edges.foldl recordEdge (out.2, false)).2 with
  | true =>
    have hnew : ¬ ∀ e ∈ doc.edges, hasEdge out.2 e = true := by
      intro hall
      rw [(recordEdge_snd doc.edges (out.2, false)).mpr ⟨rfl, hall⟩] at hchanged
      cases hchanged
    rw [if_pos rfl, Option.getD_some, or_iff_right hnew]
    simp only [recordEdge_fst, hasEdge_foldl_addEdge, List.mem_append]
    constructor
    · exact fun hall e he => hall e (Or.inl he)
    · rintro hall e (he | he)
      · exact hall e he
      · exact Or.inr he
  | false =>
    have hold := ((recordEdge_snd doc.edges (out.2, false)).mp hchanged).2
    rw [if_neg Bool.false_ne_true]
    refine ⟨fun _ => Or.inl hold, fun _ e he => ?_⟩
    have hlog : e ∈ w.files.log := by
      rcases List.mem_append.mp he with he | he
      · exact he
      · exact hload.mem e (hold e he)
    cases hidx : out.1.files.idx with
    | none =>
      have hwritten : ∀ e ∈ w.files.log ++ doc.edges, ∃ doc : VersionDoc, e ∈ doc.edges := by
        intro e he
        exact (List.mem_append.mp he).elim (h.written e) fun hnew => ⟨doc, hnew⟩
      rw [Option.getD_none]
      exact (hasEdge_replay_written hwritten e).mpr he
    | some mapping =>
      have hfresh : w.files.fresh = mapping := by
        rw [← hload.fresh, LineageFiles.fresh, hidx, Option.getD_some]
      rw [Option.getD_some, ← hfresh]
      exact hfull e hlog

/-- With exact files, a record that ends early leaves exact files if a new index replays the log, or
the log had its lines. -/
theorem crash_exact_iff {w : LineageWorld} (h : w.Sound) (hexact : w.files.Exact) (i : ℕ)
    (doc : VersionDoc) (rows : ℕ) :
    (w.crash i doc rows).files.Exact ↔ w.Covered (.crash i doc rows) := by
  rw [(crash_sound h i doc rows).exact_iff]
  have hfull := h.exact_iff.mp hexact
  have hload := loadMap_spec h i
  have hwritten := (crash_sound h i doc rows).written
  unfold LineageWorld.crash at hwritten ⊢
  unfold LineageWorld.Covered
  generalize w.loadMap i = out at hload hwritten ⊢
  simp only [LineageWorld.setMap, LineageFiles.fresh, hload.log] at hwritten ⊢
  rw [← hload.idx]
  cases hidx : out.1.files.idx with
  | none =>
    rw [Option.getD_none]
    exact ⟨fun _ => Or.inl rfl, fun _ e he => (hasEdge_replay_written hwritten e).mpr he⟩
  | some mapping =>
    have hfresh : w.files.fresh = mapping := by
      rw [← hload.fresh, LineageFiles.fresh, hidx, Option.getD_some]
    have hhas : ∀ e, hasEdge mapping e = true ↔ e ∈ w.files.log := by
      intro e
      rw [← hfresh]
      exact ⟨h.fresh_mem, hfull e⟩
    simp only [Option.getD_some, hhas, reduceCtorEq, false_or, List.mem_append]
    constructor
    · exact fun hall e he => hall e (Or.inr he)
    · rintro hall e (he | he)
      · exact he
      · exact hall e he

theorem lineage_step_sound {w t : LineageWorld} {call : LineageCall} (h : w.Sound)
    (ht : lineageSystem.step w call = some t) : t.Sound := by
  cases call with
  | record i doc =>
    cases ht
    exact record_sound h i doc
  | crash i doc rows =>
    cases ht
    exact crash_sound h i doc rows
  | lookup i =>
    cases ht
    exact (loadMap_spec h i).sound
  | close i =>
    cases ht
    exact h.setMap i fun m hm => by cases hm

theorem lineage_step_exact_iff {w t : LineageWorld} {call : LineageCall} (h : w.Sound)
    (hexact : w.files.Exact) (ht : lineageSystem.step w call = some t) :
    t.files.Exact ↔ w.Covered call := by
  cases call with
  | record i doc =>
    cases ht
    exact record_exact_iff h hexact i doc
  | crash i doc rows =>
    cases ht
    exact crash_exact_iff h hexact i doc rows
  | lookup i =>
    cases ht
    have hload := loadMap_spec h i
    refine ⟨fun _ => trivial, fun _ item ref => ?_⟩
    rw [hload.fresh, hload.log]
    exact hexact item ref
  | close i =>
    cases ht
    exact ⟨fun _ => trivial, fun _ => hexact⟩

/-- In a run of records, lookups and crashes of any indexes, new indexes find what the log holds
after every step just when every step is covered. -/
theorem lookup_eq_replay_iff_covered (calls : List LineageCall) :
    lineageSystem.Along (fun _ _ t => t.files.Exact) .start calls ↔
      lineageSystem.Along (fun w call _ => w.Covered call) .start calls := by
  refine System.along_iff_of_invariant (I := fun w => w.Sound ∧ w.files.Exact) ?_ ?_
    ⟨start_sound, fun _ _ => Iff.rfl⟩ calls
  · intro w call t ⟨hsound, hexact⟩ ht hcovered
    exact ⟨lineage_step_sound hsound ht, (lineage_step_exact_iff hsound hexact ht).mpr hcovered⟩
  · intro w call t ⟨hsound, hexact⟩ ht
    exact lineage_step_exact_iff hsound hexact ht

theorem idPattern_a : skillIdPattern "a" = true := by decide +kernel

/-- The document of a version of skill `a` that one run has contributed to. -/
def runDoc (version : ℕ) (runId : String) : VersionDoc where
  ref := ⟨"a", version⟩
  version := { taskClass := "t", provenance := { sourceRunIds := [runId] },
               usesUnique := List.nodup_nil }
  idPattern := idPattern_a

/-- An index that has read the files before another records overwrites what that has written. -/
theorem stale_index_drops_edges : ¬ ∀ calls w, lineageSystem.run .start calls = some w →
    w.files.Exact := by
  intro h
  let calls : List LineageCall :=
    [.record 0 (runDoc 1 "r1"), .lookup 1, .record 0 (runDoc 2 "r2"), .record 1 (runDoc 3 "r3")]
  have hsome : (lineageSystem.run .start calls).isSome = true := by decide +kernel
  obtain ⟨w, hw⟩ := Option.isSome_iff_exists.mp hsome
  have hreplay : (lineageSystem.run .start calls).map (fun w =>
      lookup (replayWal w.files.log) ⟨"run", "r2", ""⟩) = some [⟨"a", 2⟩] := by decide +kernel
  have hfresh : (lineageSystem.run .start calls).map (fun w =>
      lookup w.files.fresh ⟨"run", "r2", ""⟩) = some [] := by decide +kernel
  rw [hw, Option.map_some, Option.some.injEq] at hreplay hfresh
  have hmem := (h calls w hw ⟨"run", "r2", ""⟩ ⟨"a", 2⟩).mpr
  rw [hreplay, hfresh] at hmem
  exact absurd (hmem List.mem_cons_self) List.not_mem_nil

end Recertia.Skill
