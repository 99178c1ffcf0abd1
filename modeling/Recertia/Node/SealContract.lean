import Recertia.Node.Intake

/-! Sealing and the contract: when the criteria that a goal compiles to survive the replacement of
its freezes by digest-sealed commands, which goes by id. -/
namespace Recertia.Graph

/-- The criterion that stands for one constraint in the sealed contract: the digest of a freeze,
the compiled criterion of another constraint. -/
def ownCriterion (py : Platform) (ctx : NodeContext) (source : CriterionSource) (c : Constraint) :
    Except NodeError TaskCriterion :=
  if c.kind = .mustNotModify then sealConstraint py ctx c else constraintToCriterion py source c

def freezesOf (goal : Goal) : List Constraint :=
  goal.constraints.filter fun c => c.kind == .mustNotModify

/-- The constraints that become criteria. -/
def keptConstraints (goal : Goal) : List Constraint :=
  goal.constraints.filter fun c => c.kind ≠ .budgetCeiling ∧ c.kind ≠ .noExternalEffects

/-- The contract of a goal, entry by entry: what each desired state and each constraint compiles
to, with the freezes sealed. -/
def contract (py : Platform) (ctx : NodeContext) (source : CriterionSource) (goal : Goal) :
    Except NodeError (List TaskCriterion) := do
  let desired ← goal.desired.mapM (desiredToCriterion py source)
  let constraints ← (keptConstraints goal).mapM (ownCriterion py ctx source)
  return desired ++ constraints

/-- Compiling and sealing a goal leaves its contract, each entry as often as it was given. -/
def KeepsContract (py : Platform) (ctx : NodeContext) (source : CriterionSource) (goal : Goal) :
    Prop :=
  ∀ compiled out, compileGoal py source goal = .ok compiled →
    sealMustNotModifyCriteria py ctx goal compiled = .ok out →
      ∃ own, contract py ctx source goal = .ok own ∧ out.Perm own

/-- Entries of the contract that share an id are equal. -/
def IdsAgree (own : List TaskCriterion) : Prop :=
  ∀ e ∈ own, ∀ e' ∈ own, e.id = e'.id → e = e'

/-- The last entry written under an id. -/
def lastEntry (entries : List TaskCriterion) (id : String) : Option TaskCriterion :=
  entries.reverse.find? fun c => c.id == id

theorem lastEntry_append (xs ys : List TaskCriterion) (id : String) :
    lastEntry (xs ++ ys) id = (lastEntry ys id).or (lastEntry xs id) := by
  unfold lastEntry
  rw [List.reverse_append, List.find?_append]

theorem lastEntry_some {entries : List TaskCriterion} {id : String} {c : TaskCriterion}
    (h : lastEntry entries id = some c) : c ∈ entries ∧ c.id = id := by
  refine ⟨List.mem_reverse.mp (List.mem_of_find?_eq_some h), ?_⟩
  simpa using List.find?_some h

theorem lastEntry_none {entries : List TaskCriterion} {id : String}
    (h : lastEntry entries id = none) : ∀ c ∈ entries, c.id ≠ id := by
  intro c hc
  simpa using List.find?_eq_none.mp h c (List.mem_reverse.mpr hc)

theorem constraintToCriterion_id {py : Platform} {source : CriterionSource} {c : Constraint}
    {x : TaskCriterion} (h : constraintToCriterion py source c = .ok x) : x.id = c.id := by
  unfold constraintToCriterion at h
  dsimp only at h
  split at h
  · split at h
    · cases h
      rfl
    · cases h
  · split at h
    · cases h
    · obtain ⟨quoted, -, h⟩ := Fallible.bind_eq_ok.mp h
      cases h
      rfl
  · cases h

theorem sealConstraint_id {py : Platform} {ctx : NodeContext} {c : Constraint}
    {x : TaskCriterion} (h : sealConstraint py ctx c = .ok x) : x.id = c.id := by
  unfold sealConstraint at h
  split at h
  · cases h
  · obtain ⟨run, -, h⟩ := Fallible.bind_eq_ok.mp h
    cases h
    rfl

theorem ownCriterion_id {py : Platform} {ctx : NodeContext} {source : CriterionSource}
    {c : Constraint} {x : TaskCriterion} (h : ownCriterion py ctx source c = .ok x) :
    x.id = c.id := by
  unfold ownCriterion at h
  split at h
  · exact sealConstraint_id h
  · exact constraintToCriterion_id h

theorem mem_freezesOf {goal : Goal} {c : Constraint} :
    c ∈ freezesOf goal ↔ c ∈ keptConstraints goal ∧ c.kind = .mustNotModify := by
  unfold freezesOf keptConstraints
  rw [List.mem_filter, List.mem_filter]
  constructor
  · rintro ⟨hmem, hkind⟩
    have hkind : c.kind = .mustNotModify := by simpa using hkind
    exact ⟨⟨hmem, by simp [hkind]⟩, hkind⟩
  · rintro ⟨⟨hmem, -⟩, hkind⟩
    exact ⟨hmem, by simp [hkind]⟩

/-- How the compiled criteria, the sealed freezes and the contract of one goal relate. -/
structure Entries (compiled sealed own : List TaskCriterion) : Prop where
  ids : compiled.map (·.id) = own.map (·.id)
  sealedOwn : ∀ x ∈ sealed, x ∈ own
  -- A compiled criterion is the contract's own unless a freeze has its id.
  compiledOwn : ∀ x ∈ compiled, (∀ y ∈ sealed, y.id ≠ x.id) → x ∈ own

theorem forall₂_ids {source : CriterionSource} {py : Platform} {ctx : NodeContext}
    {cs : List Constraint} {compiled own : List TaskCriterion}
    (hcompiled : List.Forall₂ (fun c x => constraintToCriterion py source c = .ok x) cs compiled)
    (hown : List.Forall₂ (fun c x => ownCriterion py ctx source c = .ok x) cs own) :
    compiled.map (·.id) = own.map (·.id) := by
  induction hcompiled generalizing own with
  | nil =>
    cases hown
    rfl
  | cons hx hrest ih =>
    cases hown with
    | cons hy hown =>
      rw [List.map_cons, List.map_cons, ih hown, constraintToCriterion_id hx, ownCriterion_id hy]

theorem exists_of_forall₂_left {α β : Type*} {R : α → β → Prop} {xs : List α} {ys : List β}
    (h : List.Forall₂ R xs ys) {x : α} (hx : x ∈ xs) : ∃ y ∈ ys, R x y := by
  induction h with
  | nil => cases hx
  | cons hxy _ ih =>
    rcases List.mem_cons.mp hx with rfl | hx
    · exact ⟨_, List.mem_cons_self, hxy⟩
    · obtain ⟨y, hy, hR⟩ := ih hx
      exact ⟨y, List.mem_cons_of_mem _ hy, hR⟩

theorem exists_of_forall₂_right {α β : Type*} {R : α → β → Prop} {xs : List α} {ys : List β}
    (h : List.Forall₂ R xs ys) {y : β} (hy : y ∈ ys) : ∃ x ∈ xs, R x y :=
  exists_of_forall₂_left h.flip hy

/-- A goal that compiles and whose freezes can be sealed has a contract. -/
theorem entries_of_compiled {py : Platform} {ctx : NodeContext} {source : CriterionSource}
    {goal : Goal} {compiled sealed : List TaskCriterion}
    (hcompiled : compileGoal py source goal = .ok compiled)
    (hsealed : (freezesOf goal).mapM (sealConstraint py ctx) = .ok sealed) :
    ∃ own, contract py ctx source goal = .ok own ∧ Entries compiled sealed own := by
  obtain ⟨desired, hdesired, h⟩ := Fallible.bind_eq_ok.mp hcompiled
  obtain ⟨ks, hks, h⟩ := Fallible.bind_eq_ok.mp h
  obtain rfl := Fallible.pure_eq_ok.mp h
  have hks : List.Forall₂ _ (keptConstraints goal) ks := Fallible.mapM_eq_ok.mp hks
  have hfreezes := Fallible.mapM_eq_ok.mp hsealed
  -- A freeze is sealed, and any other constraint is compiled: both have been done for `goal`.
  have hall : ∃ own, (keptConstraints goal).mapM (ownCriterion py ctx source) = .ok own := by
    apply Fallible.mapM_isOk.mpr
    intro c hc
    unfold ownCriterion
    by_cases hkind : c.kind = .mustNotModify
    · rw [if_pos hkind]
      obtain ⟨x, -, hx⟩ := exists_of_forall₂_left hfreezes (mem_freezesOf.mpr ⟨hc, hkind⟩)
      exact ⟨x, hx⟩
    · rw [if_neg hkind]
      obtain ⟨x, -, hx⟩ := exists_of_forall₂_left hks hc
      exact ⟨x, hx⟩
  obtain ⟨own, hown⟩ := hall
  have hcontract : contract py ctx source goal = .ok (desired ++ own) :=
    Fallible.bind_eq_ok.mpr ⟨desired, hdesired, Fallible.bind_eq_ok.mpr ⟨own, hown, rfl⟩⟩
  have hown := Fallible.mapM_eq_ok.mp hown
  refine ⟨desired ++ own, hcontract, ?_, fun x hx => ?_, fun x hx hfree => ?_⟩
  · rw [List.map_append, List.map_append, forall₂_ids hks hown]
  · obtain ⟨c, hc, hx⟩ := exists_of_forall₂_right hfreezes hx
    obtain ⟨hkept, hkind⟩ := mem_freezesOf.mp hc
    obtain ⟨y, hy, hcy⟩ := exists_of_forall₂_left hown hkept
    rw [ownCriterion, if_pos hkind, hx] at hcy
    rw [Except.ok.inj hcy]
    exact List.mem_append_right desired hy
  · rcases List.mem_append.mp hx with hx | hx
    · exact List.mem_append_left own hx
    · -- An id that no freeze has belongs to a constraint of another kind.
      obtain ⟨c, hc, hcx⟩ := exists_of_forall₂_right hks hx
      have hkind : c.kind ≠ .mustNotModify := by
        intro hkind
        obtain ⟨y, hy, hcy⟩ := exists_of_forall₂_left hfreezes (mem_freezesOf.mpr ⟨hc, hkind⟩)
        apply hfree y hy
        rw [sealConstraint_id hcy, constraintToCriterion_id hcx]
      obtain ⟨y, hy, hcy⟩ := exists_of_forall₂_left hown hc
      rw [ownCriterion, if_neg hkind, hcx] at hcy
      rw [Except.ok.inj hcy]
      exact List.mem_append_right desired hy

/-- The criteria after sealing, where every freeze has a compiled placeholder. -/
def sealedCriteria (compiled sealed : List TaskCriterion) : List TaskCriterion :=
  compiled.map fun c => (lastEntry (compiled ++ sealed) c.id).getD c

/-- What stands under the id of a compiled criterion is an entry of the contract. -/
theorem Entries.last {compiled sealed own : List TaskCriterion} (h : Entries compiled sealed own)
    {id : String} (hid : id ∈ compiled.map (·.id)) :
    ∃ e ∈ own, lastEntry (compiled ++ sealed) id = some e ∧ e.id = id := by
  rw [lastEntry_append]
  cases hsealed : lastEntry sealed id with
  | some e =>
    obtain ⟨hmem, heq⟩ := lastEntry_some hsealed
    exact ⟨e, h.sealedOwn e hmem, rfl, heq⟩
  | none =>
    cases hcompiled : lastEntry compiled id with
    | none =>
      obtain ⟨c, hc, rfl⟩ := List.mem_map.mp hid
      exact absurd rfl (lastEntry_none hcompiled c hc)
    | some e =>
      obtain ⟨hmem, heq⟩ := lastEntry_some hcompiled
      refine ⟨e, h.compiledOwn e hmem fun y hy => ?_, rfl, heq⟩
      rw [heq]
      exact lastEntry_none hsealed y hy

/-- Sealing leaves the contract exactly when entries that share an id agree. -/
theorem Entries.perm_iff {compiled sealed own : List TaskCriterion}
    (h : Entries compiled sealed own) :
    (sealedCriteria compiled sealed).Perm own ↔ IdsAgree own := by
  constructor
  · intro hperm
    -- Every entry of the contract is what stands under its id, so the id determines it.
    have hlast : ∀ e ∈ own, lastEntry (compiled ++ sealed) e.id = some e := by
      intro e he
      obtain ⟨c, hc, hce⟩ := List.mem_map.mp (hperm.mem_iff.mpr he)
      obtain ⟨e', -, hlast, hid⟩ := h.last (List.mem_map_of_mem hc)
      rw [hlast, Option.getD_some] at hce
      rw [← hce, hid]
      exact hlast
    intro e he e' he' hid
    have hsome := hlast e he
    rw [hid, hlast e' he'] at hsome
    exact (Option.some.inj hsome).symm
  · intro hagree
    have hsame : sealedCriteria compiled sealed = own := by
      have hlen : compiled.length = own.length := by
        rw [← List.length_map (·.id), h.ids, List.length_map]
      apply List.ext_getElem
      · rw [sealedCriteria, List.length_map, hlen]
      · intro i hi hi'
        have hic : i < compiled.length := hlen ▸ hi'
        have hids : compiled[i].id = own[i].id := by
          have hget := congrArg (·[i]?) h.ids
          simpa [hic, hi'] using hget
        obtain ⟨e, he, hlast, hid⟩ := h.last (List.mem_map_of_mem (List.getElem_mem hic))
        have hout : (sealedCriteria compiled sealed)[i] = e := by
          simp only [sealedCriteria, List.getElem_map, hlast, Option.getD_some]
        rw [hout]
        exact hagree e he own[i] (List.getElem_mem hi') (hid.trans hids)
    rw [hsame]

/-- The spec of sealing: without a freeze the criteria stay, else each is replaced by what stands
under its id. -/
theorem seal_spec {py : Platform} {ctx : NodeContext} {source : CriterionSource} {goal : Goal}
    {compiled out : List TaskCriterion} (hcompiled : compileGoal py source goal = .ok compiled)
    (h : sealMustNotModifyCriteria py ctx goal compiled = .ok out) :
    (freezesOf goal = [] ∧ out = compiled) ∨
    (freezesOf goal ≠ [] ∧ ∃ sealed, (freezesOf goal).mapM (sealConstraint py ctx) = .ok sealed ∧
      out = sealedCriteria compiled sealed) := by
  unfold sealMustNotModifyCriteria at h
  dsimp only at h
  change (if freezesOf goal = [] then _ else _) = _ at h
  by_cases hnone : freezesOf goal = []
  · rw [if_pos hnone] at h
    exact Or.inl ⟨hnone, (Fallible.pure_eq_ok.mp h).symm⟩
  · rw [if_neg hnone] at h
    obtain ⟨sealed, hsealed, h⟩ := Fallible.bind_eq_ok.mp h
    refine Or.inr ⟨hnone, sealed, hsealed, ?_⟩
    -- Every freeze was compiled to a placeholder under its id, so none is appended.
    have hunseen : (freezesOf goal).filter (fun f => !compiled.any fun c => c.id == f.id) = [] := by
      obtain ⟨desired, -, hc⟩ := Fallible.bind_eq_ok.mp hcompiled
      obtain ⟨ks, hks, hc⟩ := Fallible.bind_eq_ok.mp hc
      obtain rfl := Fallible.pure_eq_ok.mp hc
      have hks : List.Forall₂ _ (keptConstraints goal) ks := Fallible.mapM_eq_ok.mp hks
      apply List.filter_eq_nil_iff.mpr
      intro f hf
      obtain ⟨x, hx, hfx⟩ := exists_of_forall₂_left hks (mem_freezesOf.mp hf).1
      have hany : (desired ++ ks).any (fun c => c.id == f.id) = true := by
        apply List.any_eq_true.mpr
        refine ⟨x, List.mem_append_right desired hx, ?_⟩
        rw [constraintToCriterion_id hfx]
        exact beq_self_eq_true f.id
      rw [hany]
      decide
    have hout := (Fallible.pure_eq_ok.mp h).symm
    change out = compiled.map _ ++ ((freezesOf goal).filter fun f =>
      !compiled.any fun c => c.id == f.id).filterMap _ at hout
    rw [hunseen, List.filterMap_nil, List.append_nil] at hout
    exact hout

/-- Without a freeze the contract is what the goal compiles to. -/
theorem contract_of_no_freeze {py : Platform} {ctx : NodeContext} {source : CriterionSource}
    {goal : Goal} (hnone : freezesOf goal = []) :
    contract py ctx source goal = compileGoal py source goal := by
  unfold contract compileGoal
  have hsame : (keptConstraints goal).mapM (ownCriterion py ctx source) =
      (keptConstraints goal).mapM (constraintToCriterion py source) := by
    apply Fallible.mapM_congr
    intro c hc
    apply if_neg
    intro hkind
    have hf := mem_freezesOf.mpr ⟨hc, hkind⟩
    rw [hnone] at hf
    cases hf
  rw [hsame]
  rfl

/-- A goal that has a contract can be sealed. -/
theorem seal_isOk_of_contract {py : Platform} {ctx : NodeContext} {source : CriterionSource}
    {goal : Goal} {own : List TaskCriterion} (h : contract py ctx source goal = .ok own)
    (compiled : List TaskCriterion) :
    ∃ out, sealMustNotModifyCriteria py ctx goal compiled = .ok out := by
  obtain ⟨desired, -, h⟩ := Fallible.bind_eq_ok.mp h
  obtain ⟨ks, hks, -⟩ := Fallible.bind_eq_ok.mp h
  have hks := Fallible.mapM_eq_ok.mp hks
  have hsealed : ∃ sealed, (freezesOf goal).mapM (sealConstraint py ctx) = .ok sealed := by
    apply Fallible.mapM_isOk.mpr
    intro f hf
    obtain ⟨hkept, hkind⟩ := mem_freezesOf.mp hf
    obtain ⟨x, -, hx⟩ := exists_of_forall₂_left hks hkept
    rw [ownCriterion, if_pos hkind] at hx
    exact ⟨x, hx⟩
  obtain ⟨sealed, hsealed⟩ := hsealed
  unfold sealMustNotModifyCriteria
  dsimp only
  split
  · exact ⟨_, rfl⟩
  · exact Fallible.bind_isOk.mpr ⟨sealed, hsealed, _, rfl⟩

/-- The contract survives sealing exactly when the goal has no freeze, or entries that share an id
agree. -/
theorem keeps_contract_iff (py : Platform) (ctx : NodeContext) (source : CriterionSource)
    (goal : Goal) :
    KeepsContract py ctx source goal ↔
      ∀ compiled own, compileGoal py source goal = .ok compiled →
        contract py ctx source goal = .ok own → freezesOf goal = [] ∨ IdsAgree own := by
  constructor
  · intro hkeeps compiled own hcompiled hown
    obtain ⟨out, hout⟩ := seal_isOk_of_contract hown compiled
    obtain ⟨own', hown', hperm⟩ := hkeeps compiled out hcompiled hout
    obtain rfl : own = own' := Except.ok.inj (hown.symm.trans hown')
    rcases seal_spec hcompiled hout with ⟨hnone, -⟩ | ⟨-, sealed, hsealed, rfl⟩
    · exact Or.inl hnone
    · obtain ⟨own', hown', hentries⟩ := entries_of_compiled hcompiled hsealed
      obtain rfl : own = own' := Except.ok.inj (hown.symm.trans hown')
      exact Or.inr (hentries.perm_iff.mp hperm)
  · intro hagree compiled out hcompiled hout
    rcases seal_spec hcompiled hout with ⟨hnone, rfl⟩ | ⟨hsome, sealed, hsealed, rfl⟩
    · exact ⟨out, (contract_of_no_freeze hnone).trans hcompiled, List.Perm.refl out⟩
    · obtain ⟨own, hown, hentries⟩ := entries_of_compiled hcompiled hsealed
      have hids := (hagree compiled own hcompiled hown).resolve_left hsome
      exact ⟨own, hown, hentries.perm_iff.mpr hids⟩

/-- A desired state and a freeze under one id. -/
def sharedIdGoal : Goal where
  desired := [{ id := "report", check := .command "test -s report.txt" 0 }]
  constraints := [{ id := "report", kind := .mustNotModify, value := .str "README" }]
  atLeastOneHardCriterion := by decide +kernel

/-- The command of the desired state is lost to the digest. -/
theorem not_keeps_contract_shared_id :
    ¬ KeepsContract ⟨fun s => "'" ++ s ++ "'", Char.isAlpha, fun c _ => c.id⟩
      { freezeScript := fun _ => .ok "check-digest README" } .caller sharedIdGoal := by
  intro h
  let script : TaskCriterion := { id := "report", check := .command "test -s report.txt" 0 }
  let placeholder : TaskCriterion := { id := "report", check := .command "test -e README" 0 }
  let digest : TaskCriterion := { id := "report", check := .command "check-digest README" 0 }
  have hcompiled : compileGoal ⟨fun s => "'" ++ s ++ "'", Char.isAlpha, fun c _ => c.id⟩ .caller
      sharedIdGoal = .ok [script, placeholder] := by decide +kernel
  have hsealed := h _ [digest, digest] hcompiled (by decide +kernel)
  obtain ⟨own, hown, hperm⟩ := hsealed
  have hscript : contract ⟨fun s => "'" ++ s ++ "'", Char.isAlpha, fun c _ => c.id⟩
      { freezeScript := fun _ => .ok "check-digest README" } .caller sharedIdGoal =
        .ok [script, digest] := by decide +kernel
  obtain rfl := Except.ok.inj (hscript.symm.trans hown)
  have hmem : script ∈ [digest, digest] := hperm.mem_iff.mpr List.mem_cons_self
  revert hmem
  decide +kernel

end Recertia.Graph
