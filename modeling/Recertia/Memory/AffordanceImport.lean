import Recertia.Lib.Fallible
import Recertia.Memory.Affordance

/-! Which legacy files the import takes, and the counters that it starts from. -/
namespace Recertia.Affordance

open Sql Fallible
open Json (LoadError PyFloat)

/-! ### What a file must hold -/

/-- The fields of a legacy tool can be stored. -/
structure ToolStorable (P : Platform) (cap : SampleCap) (item : Str × ToolAffordance) : Prop where
  name : encodable item.1 = true
  invocations : storable item.2.invocations = true
  failures : storable item.2.failures = true
  /-- the durations and costs are lists, and their pairs that are kept have no odd values -/
  samples : ∃ durations costs, item.2.durationsS.sequence? = some durations ∧
    item.2.costsUsd.sequence? = some costs ∧
    ∀ pair ∈ newestPairs cap durations costs, storable pair.1 = true ∧ storable pair.2 = true
  /-- the signatures are an object of numbers, and those that are kept have no odd values -/
  signatures : ∃ signatures, item.2.errorSignatures.dict? = some signatures ∧
    (∀ row ∈ signatures.rows, row.2.isNumber = true) ∧
    ∀ row ∈ (P.sortedByCount signatures.rows).take cap.cap,
      encodable row.1 = true ∧ storable row.2 = true

structure ResourceStorable (cap : SampleCap) (item : ResourceKey × ResourceAffordance) : Prop where
  kind : encodable item.1.1 = true
  rid : encodable item.1.2 = true
  conflicts : storable item.2.conflicts = true
  timeouts : storable item.2.timeouts = true
  observedCeiling : storable item.2.observedCeiling = true
  waits : ∃ waits, item.2.waitsMs.sequence? = some waits ∧
    ∀ wait ∈ newest cap.cap waits, storable wait = true

def Aggregates.Storable (P : Platform) (cap : SampleCap) (agg : Aggregates) : Prop :=
  (∀ item ∈ agg.tools.rows, ToolStorable P cap item) ∧
    ∀ item ∈ agg.resources.rows, ResourceStorable cap item

variable {P : Platform} {cap : SampleCap}

/-! ### One row -/

theorem liftBind_eq_ok {α : Type} {x : Except BindError α} {a : α} :
    liftBind x = .ok a ↔ x = .ok a := mapError_eq_ok

theorem ofOption_eq_ok {α : Type} {o : Option α} {a : α} : ofOption o = .ok a ↔ o = some a := by
  cases o with
  | none => exact iff_of_false (fun h => by cases h) (fun h => by cases h)
  | some b =>
    constructor
    · intro h
      cases h
      rfl
    · intro h
      cases h
      rfl

theorem insertRow_eq_ok {K V : Type} [DecidableEq K] {t t' : Table K V} {k : K} {v : V} :
    insertRow t k v = .ok t' ↔ k ∉ t.keys ∧ t'.rows = t.rows ++ [(k, v)] := by
  rw [← Table.insert_eq_some, insertRow]
  cases t.insert k v with
  | none => exact iff_of_false (fun h => by cases h) (fun h => by cases h)
  | some u =>
    constructor
    · intro h
      cases h
      rfl
    · intro h
      cases h
      rfl

theorem insertRow_isOk {K V : Type} [DecidableEq K] {t : Table K V} {k : K} (v : V)
    (h : k ∉ t.keys) : ∃ t', insertRow t k v = .ok t' :=
  ⟨⟨t.rows ++ [(k, v)], Table.nodup_append v h⟩, insertRow_eq_ok.mpr ⟨h, rfl⟩⟩

theorem keys_of_insertRow {K V : Type} [DecidableEq K] {t t' : Table K V} {k : K} {v : V}
    (h : insertRow t k v = .ok t') : t'.keys = t.keys ++ [k] := by
  rw [Table.keys, (insertRow_eq_ok.mp h).2, List.map_append]
  rfl

theorem insertSample_isOk {tool : Str} {duration cost : JsonValue} :
    (∃ sample, insertSample tool duration cost = .ok sample) ↔
      storable duration = true ∧ storable cost = true := by
  unfold insertSample
  simp only [bind_isOk, liftBind_eq_ok, pure_eq_ok, exists_eq', and_true]
  constructor
  · rintro ⟨d, hd, c, hc⟩
    exact ⟨bindNotNull_isOk.mp ⟨d, hd⟩, bindNotNull_isOk.mp ⟨c, hc⟩⟩
  · rintro ⟨hd, hc⟩
    obtain ⟨d, hd⟩ := bindNotNull_isOk.mpr hd
    obtain ⟨c, hc⟩ := bindNotNull_isOk.mpr hc
    exact ⟨d, hd, c, hc⟩

theorem insertSignature_eq_ok {tool : Str} {signatures signatures' : Table (Str × Str) SignatureRow}
    {item : Str × JsonValue} (h : insertSignature P tool signatures item = .ok signatures') :
    signatures'.keys = signatures.keys ++ [(tool, item.1)] := by
  unfold insertSignature at h
  simp only [bind_eq_ok, liftBind_eq_ok] at h
  obtain ⟨signature, hsignature, count, -, hinsert⟩ := h
  rw [keys_of_insertRow hinsert, bindText_eq_ok hsignature]

theorem insertSignature_isOk {tool : Str} {signatures : Table (Str × Str) SignatureRow}
    {item : Str × JsonValue} (hnew : (tool, item.1) ∉ signatures.keys) :
    (∃ signatures', insertSignature P tool signatures item = .ok signatures') ↔
      encodable item.1 = true ∧ storable item.2 = true := by
  unfold insertSignature
  simp only [bind_isOk, liftBind_eq_ok]
  constructor
  · rintro ⟨signature, hsignature, count, hcount, -⟩
    exact ⟨bindText_isOk.mp ⟨signature, hsignature⟩, (integerColumn_isOk P.sql).mp ⟨count, hcount⟩⟩
  · rintro ⟨hsignature, hcount⟩
    obtain ⟨signature, hsignature⟩ := bindText_isOk.mpr hsignature
    obtain ⟨count, hcount⟩ := (integerColumn_isOk P.sql).mpr hcount
    refine ⟨signature, hsignature, count, hcount, insertRow_isOk _ ?_⟩
    rw [bindText_eq_ok hsignature]
    exact hnew

/-- The signatures of a tool that are to come are new ones. -/
def FreshSignatures (tool : Str) (signatures : Table (Str × Str) SignatureRow)
    (items : List (Str × JsonValue)) : Prop :=
  (items.map Prod.fst).Nodup ∧ ∀ item ∈ items, (tool, item.1) ∉ signatures.keys

theorem FreshSignatures.step {tool : Str} {signatures signatures' : Table (Str × Str) SignatureRow}
    {item : Str × JsonValue} {items : List (Str × JsonValue)}
    (hfresh : FreshSignatures tool signatures (item :: items))
    (h : insertSignature P tool signatures item = .ok signatures') :
    FreshSignatures tool signatures' items := by
  obtain ⟨hnodup, hnew⟩ := hfresh
  rw [List.map_cons, List.nodup_cons] at hnodup
  refine ⟨hnodup.2, fun other hother hmem => ?_⟩
  rw [insertSignature_eq_ok h, List.mem_append, List.mem_singleton] at hmem
  rcases hmem with hold | heq
  · exact hnew other (List.mem_cons_of_mem item hother) hold
  · have hname : other.1 = item.1 := congrArg Prod.snd heq
    exact hnodup.1 (hname ▸ List.mem_map_of_mem hother)

theorem insertSignatures_isOk {tool : Str} {signatures : Table (Str × Str) SignatureRow}
    {items : List (Str × JsonValue)} (hfresh : FreshSignatures tool signatures items) :
    (∃ signatures', items.foldlM (insertSignature P tool) signatures = .ok signatures') ↔
      ∀ item ∈ items, encodable item.1 = true ∧ storable item.2 = true := by
  refine foldlM_isOk (I := FreshSignatures tool) (fun b x xs hb => ?_) (fun b x xs c hb hc => ?_)
    hfresh
  · exact insertSignature_isOk (hb.2 x List.mem_cons_self)
  · exact hb.step hc

theorem keys_insertSignatures {tool : Str} {signatures signatures' : Table (Str × Str) SignatureRow}
    {items : List (Str × JsonValue)}
    (h : items.foldlM (insertSignature P tool) signatures = .ok signatures') :
    ∀ key ∈ signatures'.keys, key.1 = tool ∨ key ∈ signatures.keys := by
  refine foldlM_invariant
    (I := fun b _ => ∀ key ∈ b.keys, key.1 = tool ∨ key ∈ signatures.keys)
    (fun b x xs c hb hc => ?_) (fun key hkey => .inr hkey) h
  intro key hkey
  rw [insertSignature_eq_ok hc, List.mem_append, List.mem_singleton] at hkey
  rcases hkey with hold | rfl
  · exact hb key hold
  · exact .inl rfl

theorem topSignatures_eq_ok {signatures : Table Str JsonValue} {top : List (Str × JsonValue)} :
    topSignatures P cap signatures = .ok top ↔
      (∀ row ∈ signatures.rows, row.2.isNumber = true) ∧
        top = (P.sortedByCount signatures.rows).take cap.cap := by
  rw [← List.all_eq_true, topSignatures]
  split
  · rename_i h
    constructor
    · intro htop
      cases htop
      exact ⟨h, rfl⟩
    · rintro ⟨-, rfl⟩
      rfl
  · rename_i h
    exact iff_of_false (fun htop => by cases htop) (fun htop => h htop.1)

theorem nodup_topSignatures (signatures : Table Str JsonValue) :
    (((P.sortedByCount signatures.rows).take cap.cap).map Prod.fst).Nodup := by
  have hperm := (P.sorted_perm signatures.rows).map Prod.fst
  have hnodup := hperm.nodup_iff.mpr signatures.nodup
  exact hnodup.sublist ((List.take_sublist _ _).map Prod.fst)

/-! ### One tool, one resource -/

/-- The value that a field has in its column. -/
def columnOf (P : Platform) (v : JsonValue) : Value :=
  match integerColumn P.sql v with
  | .ok w => w
  | .error _ => .ofInt 0

theorem columnOf_eq {v : JsonValue} {w : Value} (h : integerColumn P.sql v = .ok w) :
    columnOf P v = w := by
  rw [columnOf, h]

def toolRow (P : Platform) (agg : ToolAffordance) : ToolRow :=
  ⟨columnOf P agg.invocations, columnOf P agg.failures, 0⟩

def resourceRow (P : Platform) (agg : ResourceAffordance) : ResourceRow :=
  ⟨columnOf P agg.conflicts, columnOf P agg.timeouts, columnOf P agg.observedCeiling⟩

/-- The tools that are to come have no rows yet, and the signatures are those of tools with one. -/
structure FreshTools (rows : Rows) (items : List (Str × ToolAffordance)) : Prop where
  nodup : (items.map Prod.fst).Nodup
  new : ∀ item ∈ items, item.1 ∉ rows.tools.keys
  signatures : ∀ key ∈ rows.signatures.keys, key.1 ∈ rows.tools.keys

theorem insertTool_eq_ok {rows rows' : Rows} {item : Str × ToolAffordance}
    (h : insertTool P cap rows item = .ok rows') :
    rows'.tools.rows = rows.tools.rows ++ [(item.1, toolRow P item.2)] ∧
      (∀ key ∈ rows'.signatures.keys, key.1 = item.1 ∨ key ∈ rows.signatures.keys) ∧
      rows'.resources = rows.resources := by
  unfold insertTool at h
  simp only [bind_eq_ok, liftBind_eq_ok] at h
  obtain ⟨tool, htool, invocations, hinvocations, failures, hfailures, tools, htools, _, _, _, _, _,
    _, _, _, top, _, signatures, hsignatures, h⟩ := h
  cases h
  have hname : tool = item.1 := bindText_eq_ok htool
  subst hname
  refine ⟨?_, keys_insertSignatures hsignatures, rfl⟩
  rw [toolRow, columnOf_eq hinvocations, columnOf_eq hfailures]
  exact (insertRow_eq_ok.mp htools).2

theorem insertTool_isOk {rows : Rows} {item : Str × ToolAffordance}
    (hnew : item.1 ∉ rows.tools.keys) (hsignatures : ∀ key ∈ rows.signatures.keys, key.1 ≠ item.1) :
    (∃ rows', insertTool P cap rows item = .ok rows') ↔ ToolStorable P cap item := by
  have hfresh (signatures : Table Str JsonValue) : FreshSignatures item.1 rows.signatures
      ((P.sortedByCount signatures.rows).take cap.cap) :=
    ⟨nodup_topSignatures signatures, fun other _ hmem => hsignatures _ hmem rfl⟩
  unfold insertTool
  simp only [bind_isOk, liftBind_eq_ok, ofOption_eq_ok, topSignatures_eq_ok]
  constructor
  · rintro ⟨tool, htool, invocations, hinvocations, failures, hfailures, tools, -, durations,
      hdurations, costs, hcosts, samples, hsamples, signatures, hobject, top, ⟨hnumbers, rfl⟩,
      signatures', hrows, -⟩
    have hname : tool = item.1 := bindText_eq_ok htool
    subst hname
    refine ⟨bindText_isOk.mp ⟨_, htool⟩, (integerColumn_isOk P.sql).mp ⟨_, hinvocations⟩,
      (integerColumn_isOk P.sql).mp ⟨_, hfailures⟩, ⟨durations, costs, hdurations, hcosts, ?_⟩,
      ⟨signatures, hobject, hnumbers, ?_⟩⟩
    · intro pair hpair
      exact insertSample_isOk.mp (mapM_isOk.mp ⟨samples, hsamples⟩ pair hpair)
    · exact (insertSignatures_isOk (hfresh signatures)).mp ⟨signatures', hrows⟩
  · rintro ⟨hname, hinvocations, hfailures, ⟨durations, costs, hdurations, hcosts, hpairs⟩,
      ⟨signatures, hobject, hnumbers, htop⟩⟩
    have hsamples : ∃ samples, (newestPairs cap durations costs).mapM
        (fun pair => insertSample item.1 pair.1 pair.2) = .ok samples :=
      mapM_isOk.mpr fun pair hpair => insertSample_isOk.mpr (hpairs pair hpair)
    obtain ⟨tool, htool⟩ := bindText_isOk.mpr hname
    obtain ⟨invocations, hinvocations⟩ := (integerColumn_isOk P.sql).mpr hinvocations
    obtain ⟨failures, hfailures⟩ := (integerColumn_isOk P.sql).mpr hfailures
    obtain ⟨tools, htools⟩ := insertRow_isOk ⟨invocations, failures, 0⟩ hnew
    obtain ⟨samples, hsamples⟩ := hsamples
    obtain ⟨signatures', hrows⟩ := (insertSignatures_isOk (hfresh signatures)).mpr htop
    have htext : tool = item.1 := bindText_eq_ok htool
    subst htext
    exact ⟨_, htool, invocations, hinvocations, failures, hfailures, tools, htools, durations,
      hdurations, costs, hcosts, samples, hsamples, signatures, hobject, _, ⟨hnumbers, rfl⟩,
      signatures', hrows, _, rfl⟩

theorem FreshTools.step {rows rows' : Rows} {item : Str × ToolAffordance}
    {items : List (Str × ToolAffordance)} (hfresh : FreshTools rows (item :: items))
    (h : insertTool P cap rows item = .ok rows') : FreshTools rows' items := by
  obtain ⟨hrows, hsignatures, -⟩ := insertTool_eq_ok h
  have hkeys : rows'.tools.keys = rows.tools.keys ++ [item.1] := by
    rw [Table.keys, hrows, List.map_append]
    rfl
  have hnodup := hfresh.nodup
  rw [List.map_cons, List.nodup_cons] at hnodup
  refine ⟨hnodup.2, fun other hother hmem => ?_, fun key hkey => ?_⟩
  · rw [hkeys, List.mem_append, List.mem_singleton] at hmem
    rcases hmem with hold | heq
    · exact hfresh.new other (List.mem_cons_of_mem item hother) hold
    · exact hnodup.1 (heq ▸ List.mem_map_of_mem hother)
  · rw [hkeys, List.mem_append, List.mem_singleton]
    rcases hsignatures key hkey with heq | hold
    · exact .inr heq
    · exact .inl (hfresh.signatures key hold)

theorem insertResource_eq_ok {rows rows' : Rows} {item : ResourceKey × ResourceAffordance}
    (h : insertResource P cap rows item = .ok rows') :
    rows'.resources.rows = rows.resources.rows ++ [(item.1, resourceRow P item.2)] ∧
      rows'.tools = rows.tools := by
  unfold insertResource at h
  simp only [bind_eq_ok, liftBind_eq_ok] at h
  obtain ⟨kind, hkind, rid, hrid, conflicts, hconflicts, timeouts, htimeouts, ceiling, hceiling,
    resources, hresources, _, _, _, _, h⟩ := h
  cases h
  have hkey : (kind, rid) = item.1 := Prod.ext (bindText_eq_ok hkind) (bindText_eq_ok hrid)
  rw [resourceRow, columnOf_eq hconflicts, columnOf_eq htimeouts, columnOf_eq hceiling, ← hkey]
  exact ⟨(insertRow_eq_ok.mp hresources).2, rfl⟩

theorem insertResource_isOk {rows : Rows} {item : ResourceKey × ResourceAffordance}
    (hnew : item.1 ∉ rows.resources.keys) :
    (∃ rows', insertResource P cap rows item = .ok rows') ↔ ResourceStorable cap item := by
  unfold insertResource
  simp only [bind_isOk, liftBind_eq_ok, ofOption_eq_ok]
  constructor
  · rintro ⟨kind, hkind, rid, hrid, conflicts, hconflicts, timeouts, htimeouts, ceiling, hceiling,
      resources, -, waits, hsequence, bound, hbound, -⟩
    refine ⟨bindText_isOk.mp ⟨kind, hkind⟩, bindText_isOk.mp ⟨rid, hrid⟩,
      (integerColumn_isOk P.sql).mp ⟨_, hconflicts⟩, (integerColumn_isOk P.sql).mp ⟨_, htimeouts⟩,
      (integerColumn_isOk P.sql).mp ⟨_, hceiling⟩, waits, hsequence, fun wait hwait => ?_⟩
    obtain ⟨b, hb⟩ := mapM_isOk.mp ⟨bound, hbound⟩ wait hwait
    exact bindNotNull_isOk.mp ⟨b, liftBind_eq_ok.mp hb⟩
  · rintro ⟨hkind, hrid, hconflicts, htimeouts, hceiling, waits, hsequence, hwaits⟩
    have hbound : ∃ bound, (newest cap.cap waits).mapM (fun wait => liftBind (bindNotNull wait)) =
        .ok bound := by
      refine mapM_isOk.mpr fun wait hwait => ?_
      obtain ⟨b, hb⟩ := bindNotNull_isOk.mpr (hwaits wait hwait)
      exact ⟨b, liftBind_eq_ok.mpr hb⟩
    obtain ⟨kind, hkind⟩ := bindText_isOk.mpr hkind
    obtain ⟨rid, hrid⟩ := bindText_isOk.mpr hrid
    obtain ⟨conflicts, hconflicts⟩ := (integerColumn_isOk P.sql).mpr hconflicts
    obtain ⟨timeouts, htimeouts⟩ := (integerColumn_isOk P.sql).mpr htimeouts
    obtain ⟨ceiling, hceiling⟩ := (integerColumn_isOk P.sql).mpr hceiling
    have hkey : (kind, rid) = item.1 := Prod.ext (bindText_eq_ok hkind) (bindText_eq_ok hrid)
    obtain ⟨resources, hresources⟩ :=
      insertRow_isOk (t := rows.resources) ⟨conflicts, timeouts, ceiling⟩ (hkey ▸ hnew)
    obtain ⟨bound, hbound⟩ := hbound
    exact ⟨kind, hkind, rid, hrid, conflicts, hconflicts, timeouts, htimeouts, ceiling, hceiling,
      resources, hresources, waits, hsequence, bound, hbound, _, rfl⟩

/-! ### The whole file -/

/-- The counters that survive a legacy file. -/
inductive Counter
  | invocations (tool : Str)
  | failures (tool : Str)
  | conflicts (key : ResourceKey)
  | timeouts (key : ResourceKey)

/-- What a counter is in the tables; without a row it is zero. -/
def Rows.value (rows : Rows) : Counter → Value
  | .invocations tool => ((rows.tools.get? tool).map ToolRow.invocations).getD (.ofInt 0)
  | .failures tool => ((rows.tools.get? tool).map ToolRow.failures).getD (.ofInt 0)
  | .conflicts key => ((rows.resources.get? key).map ResourceRow.conflicts).getD (.ofInt 0)
  | .timeouts key => ((rows.resources.get? key).map ResourceRow.timeouts).getD (.ofInt 0)

/-- What a counter is in the legacy file, as its column keeps it. -/
def Aggregates.value (P : Platform) (agg : Aggregates) : Counter → Value
  | .invocations tool =>
    ((agg.tools.get? tool).map fun t => columnOf P t.invocations).getD (.ofInt 0)
  | .failures tool => ((agg.tools.get? tool).map fun t => columnOf P t.failures).getD (.ofInt 0)
  | .conflicts key => ((agg.resources.get? key).map fun r => columnOf P r.conflicts).getD (.ofInt 0)
  | .timeouts key => ((agg.resources.get? key).map fun r => columnOf P r.timeouts).getD (.ofInt 0)

theorem freshTools_empty (agg : Aggregates) : FreshTools {} agg.tools.rows where
  nodup := agg.tools.nodup
  new _ _ h := absurd h List.not_mem_nil
  signatures _ h := absurd h List.not_mem_nil

/-- The tables behind the first loop. -/
theorem tools_of_insertTools {agg : Aggregates} {rows : Rows}
    (h : agg.tools.rows.foldlM (insertTool P cap) {} = .ok rows) :
    rows.tools = agg.tools.mapValues (toolRow P) ∧ rows.resources = .empty := by
  have hrow : ∀ b x xs c, b.tools.rows ++ (x :: xs).map (fun item => (item.1, toolRow P item.2)) =
        (agg.tools.mapValues (toolRow P)).rows ∧ b.resources = .empty →
      insertTool P cap b x = .ok c →
      c.tools.rows ++ xs.map (fun item => (item.1, toolRow P item.2)) =
        (agg.tools.mapValues (toolRow P)).rows ∧ c.resources = .empty := by
    rintro b x xs c ⟨hrows, hresources⟩ hc
    obtain ⟨htools, -, hsame⟩ := insertTool_eq_ok hc
    rw [htools, hsame, List.append_assoc]
    exact ⟨hrows, hresources⟩
  have hend := foldlM_invariant
    (I := fun b xs => b.tools.rows ++ xs.map (fun item => (item.1, toolRow P item.2)) =
      (agg.tools.mapValues (toolRow P)).rows ∧ b.resources = .empty) hrow ⟨rfl, rfl⟩ h
  rw [List.map_nil, List.append_nil] at hend
  exact ⟨Table.eq_of_rows hend.1, hend.2⟩

theorem resources_of_insertResources {agg : Aggregates} {rows rows' : Rows}
    (hempty : rows.resources = .empty)
    (h : agg.resources.rows.foldlM (insertResource P cap) rows = .ok rows') :
    rows'.resources = agg.resources.mapValues (resourceRow P) ∧ rows'.tools = rows.tools := by
  have hrow : ∀ b x xs c,
      b.resources.rows ++ (x :: xs).map (fun item => (item.1, resourceRow P item.2)) =
        (agg.resources.mapValues (resourceRow P)).rows ∧ b.tools = rows.tools →
      insertResource P cap b x = .ok c →
      c.resources.rows ++ xs.map (fun item => (item.1, resourceRow P item.2)) =
        (agg.resources.mapValues (resourceRow P)).rows ∧ c.tools = rows.tools := by
    rintro b x xs c ⟨hrows, htools⟩ hc
    obtain ⟨hresources, hsame⟩ := insertResource_eq_ok hc
    rw [hresources, hsame, List.append_assoc]
    exact ⟨hrows, htools⟩
  have hend := foldlM_invariant
    (I := fun b xs => b.resources.rows ++ xs.map (fun item => (item.1, resourceRow P item.2)) =
      (agg.resources.mapValues (resourceRow P)).rows ∧ b.tools = rows.tools) hrow
    ⟨by rw [hempty]; rfl, rfl⟩ h
  rw [List.map_nil, List.append_nil] at hend
  exact ⟨Table.eq_of_rows hend.1, hend.2⟩

/-- An import starts the counters from those of the file. -/
theorem value_insertLegacy {agg : Aggregates} {rows : Rows}
    (h : insertLegacy P cap agg {} = .ok rows) (c : Counter) : rows.value c = agg.value P c := by
  obtain ⟨mid, htools, hresources⟩ := bind_eq_ok.mp h
  obtain ⟨hmid, hempty⟩ := tools_of_insertTools htools
  obtain ⟨hrows, hsame⟩ := resources_of_insertResources hempty hresources
  rw [hmid] at hsame
  cases c with
  | invocations tool =>
    rw [Rows.value, hsame, Table.get?_mapValues, Option.map_map]
    rfl
  | failures tool =>
    rw [Rows.value, hsame, Table.get?_mapValues, Option.map_map]
    rfl
  | conflicts key =>
    rw [Rows.value, hrows, Table.get?_mapValues, Option.map_map]
    rfl
  | timeouts key =>
    rw [Rows.value, hrows, Table.get?_mapValues, Option.map_map]
    rfl

/-- An import goes through exactly when all that it stores can be stored. -/
theorem insertLegacy_isOk {agg : Aggregates} :
    (∃ rows, insertLegacy P cap agg {} = .ok rows) ↔ agg.Storable P cap := by
  have htools : (∃ rows, agg.tools.rows.foldlM (insertTool P cap) {} = .ok rows) ↔
      ∀ item ∈ agg.tools.rows, ToolStorable P cap item := by
    refine foldlM_isOk (I := FreshTools) (fun b x xs hb => ?_) (fun b x xs c hb hc => hb.step hc)
      (freshTools_empty agg)
    have hnew := hb.new x List.mem_cons_self
    exact insertTool_isOk hnew fun key hkey heq => hnew (heq ▸ hb.signatures key hkey)
  have hresources {rows : Rows} (hempty : rows.resources = .empty) :
      (∃ rows', agg.resources.rows.foldlM (insertResource P cap) rows = .ok rows') ↔
        ∀ item ∈ agg.resources.rows, ResourceStorable cap item := by
    refine foldlM_isOk
      (I := fun b xs => (xs.map Prod.fst).Nodup ∧ ∀ item ∈ xs, item.1 ∉ b.resources.keys)
      (fun b x xs hb => ?_) (fun b x xs c hb hc => ?_) ⟨agg.resources.nodup, fun item _ => ?_⟩
    · exact insertResource_isOk (hb.2 x List.mem_cons_self)
    · obtain ⟨hnodup, hnew⟩ := hb
      rw [List.map_cons, List.nodup_cons] at hnodup
      refine ⟨hnodup.2, fun item hitem hmem => ?_⟩
      rw [Table.keys, (insertResource_eq_ok hc).1, List.map_append] at hmem
      rcases List.mem_append.mp hmem with hold | hlast
      · exact hnew item (List.mem_cons_of_mem x hitem) hold
      · have heq : item.1 = x.1 := List.mem_singleton.mp hlast
        exact hnodup.1 (heq ▸ List.mem_map_of_mem hitem)
    · rw [hempty]
      exact List.not_mem_nil
  unfold insertLegacy Aggregates.Storable
  rw [bind_isOk, ← htools]
  constructor
  · rintro ⟨rows, hrows, hrest⟩
    exact ⟨⟨rows, hrows⟩, (hresources (tools_of_insertTools hrows).2).mp hrest⟩
  · rintro ⟨⟨rows, hrows⟩, hrest⟩
    exact ⟨rows, hrows, (hresources (tools_of_insertTools hrows).2).mpr hrest⟩

end Recertia.Affordance
