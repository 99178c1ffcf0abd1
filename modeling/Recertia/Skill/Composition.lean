import Mathlib.Logic.Relation
import Recertia.Skill.Effects

/-! Composite skills: the chains of pins between versions, what a composite resolves to, and how far a
quarantine reaches along the chains. -/
namespace Recertia.Skill

open Fallible Relation

/-- A stored version pins another. -/
def Library.Uses (lib : Library) (parent child : SkillRef) : Prop :=
  ∃ entry, lib.get? parent = some entry ∧ child ∈ entry.version.uses

def Library.Live (lib : Library) (ref : SkillRef) : Prop :=
  ∃ entry, lib.get? ref = some entry ∧ entry.live = true

inductive CompositionError
  | cycle (path : List SkillRef)
  | depth
  | missing (ref : SkillRef)
  | quarantined (ref : SkillRef)
  | notLive (ref : SkillRef)
  deriving DecidableEq, Repr

/-- `MAX_DEPTH` -/
def maxDepth : ℕ := 3

/-- The checks of a child that is about to be walked. -/
def checkChild (lib : Library) (use : SkillRef) : Except CompositionError Entry :=
  match lib.get? use with
  | none => .error (.missing use)
  | some entry =>
    match entry.status with
    | none => .error (.missing use)
    | some status =>
      if status.lifecycle = .quarantined then .error (.quarantined use)
      else if status.live then .ok entry else .error (.notLive use)

/-- `walk`, with the levels that are left; it collects every child once. -/
def walk (lib : Library) : ℕ → SkillRef → SkillVersion → List SkillRef → List SkillRef →
    Except CompositionError (List SkillRef)
  | levels, ref, version, path, resolved =>
    if ref ∈ path then .error (.cycle (path ++ [ref]))
    else match levels with
      | 0 => .error .depth
      | levels + 1 => version.uses.foldlM (fun resolved use => do
          let child ← checkChild lib use
          walk lib levels use child.version (path ++ [ref])
            (if use ∈ resolved then resolved else resolved ++ [use])) resolved

/-- The walk from a version; `depth` is where it starts. -/
def resolveUses (lib : Library) (ref : SkillRef) (version : SkillVersion) (depth : ℕ) :
    Except CompositionError (List SkillRef) :=
  walk lib (maxDepth + 1 - depth) ref version [] []

theorem checkChild_eq_ok {lib : Library} {use : SkillRef} {entry : Entry}
    (h : checkChild lib use = .ok entry) : lib.get? use = some entry ∧ entry.live = true := by
  unfold checkChild at h
  split at h
  · cases h
  · rename_i found hfound
    split at h
    · cases h
    · rename_i status hstatus
      split at h
      · cases h
      · split at h
        · rename_i hlive
          cases h
          exact ⟨hfound, by rw [Entry.live, hstatus, Option.any_some]; exact hlive⟩
        · cases h

/-- A walk that returns has found every version below it live. -/
theorem walk_eq_ok {lib : Library} {levels : ℕ} {ref : SkillRef} {version : SkillVersion}
    {path resolved out : List SkillRef} (h : walk lib levels ref version path resolved = .ok out) :
    (∀ s ∈ resolved, s ∈ out) ∧
      ∀ use ∈ version.uses, ∀ s, ReflTransGen lib.Uses use s → lib.Live s ∧ s ∈ out := by
  induction levels generalizing ref version path resolved out with
  | zero =>
    unfold walk at h
    split at h <;> cases h
  | succ levels ih =>
    unfold walk at h
    split at h
    · cases h
    · dsimp only at h
      -- The uses are walked in turn.
      generalize version.uses = uses at h ⊢
      induction uses generalizing resolved with
      | nil =>
        cases h
        exact ⟨fun s hs => hs, fun use huse => by cases huse⟩
      | cons use uses ihuses =>
        rw [List.foldlM_cons] at h
        obtain ⟨mid, hmid, h⟩ := bind_eq_ok.mp h
        obtain ⟨child, hcheck, hwalk⟩ := bind_eq_ok.mp hmid
        obtain ⟨hchild, hlive⟩ := checkChild_eq_ok hcheck
        obtain ⟨hkeep, hbelow⟩ := ih hwalk
        obtain ⟨hkeep', hrest⟩ := ihuses h
        have huse : use ∈ if use ∈ resolved then resolved else resolved ++ [use] := by
          split
          · assumption
          · exact List.mem_append_right _ (List.mem_singleton_self _)
        refine ⟨fun s hs => hkeep' s (hkeep s ?_), fun other hother s hreach => ?_⟩
        · split
          · exact hs
          · exact List.mem_append_left _ hs
        · rcases List.mem_cons.mp hother with rfl | hother
          · rcases ReflTransGen.cases_head hreach with rfl | ⟨next, ⟨entry, hentry, hnext⟩, hreach⟩
            · exact ⟨⟨child, hchild, hlive⟩, hkeep' _ (hkeep _ huse)⟩
            · cases hchild.symm.trans hentry
              obtain ⟨hs, hmem⟩ := hbelow next hnext s hreach
              exact ⟨hs, hkeep' s hmem⟩
          · exact hrest other hother s hreach

/-- A composite resolves to versions that are live, and to everything that it reaches. -/
theorem resolveUses_eq_ok {lib : Library} {ref : SkillRef} {entry : Entry} {depth : ℕ}
    {out : List SkillRef} (hentry : lib.get? ref = some entry)
    (h : resolveUses lib ref entry.version depth = .ok out) {s : SkillRef}
    (hreach : TransGen lib.Uses ref s) : lib.Live s ∧ s ∈ out := by
  obtain ⟨use, ⟨other, hother, huse⟩, hbelow⟩ := TransGen.head'_iff.mp hreach
  cases hentry.symm.trans hother
  exact (walk_eq_ok h).2 use huse s hbelow

theorem uses_congr {dest : SkillRef → Entry → Option Lifecycle} {lib lib' : Library}
    (h : Moves dest lib lib') : lib'.Uses = lib.Uses := by
  funext parent child
  apply propext
  constructor
  · rintro ⟨entry', hentry', huses⟩
    obtain ⟨entry, hentry, hversion, -⟩ := h.before hentry'
    exact ⟨entry, hentry, hversion ▸ huses⟩
  · rintro ⟨entry, hentry, huses⟩
    obtain ⟨entry', hentry', hversion, -⟩ := h.after hentry
    exact ⟨entry', hentry', hversion ▸ huses⟩

/-- Behind a quarantine the live versions are those that were live before, but for the child and the
versions that pin it. -/
theorem live_quarantine_iff {child : SkillRef} {lib lib' : Library}
    (h : quarantineChildBlocksParents child lib = .ok lib') (ref : SkillRef) :
    lib'.Live ref ↔ lib.Live ref ∧ ref ≠ child ∧ ¬ lib.Uses ref child := by
  obtain ⟨status, hstatus, -⟩ := bind_eq_ok.mp h
  obtain ⟨last, hlast, hmoves⟩ := quarantineChild_moves hstatus
  cases h.symm.trans hlast
  constructor
  · rintro ⟨entry', hentry', hlive⟩
    obtain ⟨entry, hentry, -, hbefore, hdest⟩ := hmoves.live_before hentry' hlive
    rw [Option.or_eq_none_iff, ite_eq_right_iff, ite_eq_right_iff] at hdest
    refine ⟨⟨entry, hentry, hbefore⟩, fun href => ?_, ?_⟩
    · cases hdest.2 href
    · rintro ⟨other, hother, huses⟩
      cases hentry.symm.trans hother
      cases hdest.1 huses
  · rintro ⟨⟨entry, hentry, hlive⟩, hne, hnot⟩
    apply hmoves.live_after hentry hlive
    have huses : child ∉ entry.version.uses := fun huses => hnot ⟨entry, hentry, huses⟩
    rw [if_neg huses, if_neg hne]
    rfl

/-- Behind a quarantine no live version reaches the child through its pins exactly when, before it,
every live version that reaches the child pins it. -/
theorem quarantine_reaches_iff {child : SkillRef} {lib lib' : Library}
    (h : quarantineChildBlocksParents child lib = .ok lib') :
    (∀ ref, TransGen lib'.Uses ref child → ¬ lib'.Live ref) ↔
      ∀ ref, TransGen lib.Uses ref child → lib.Live ref → ref = child ∨ lib.Uses ref child := by
  obtain ⟨status, hstatus, -⟩ := bind_eq_ok.mp h
  obtain ⟨last, hlast, hmoves⟩ := quarantineChild_moves hstatus
  cases h.symm.trans hlast
  rw [uses_congr hmoves]
  apply forall_congr'
  intro ref
  rw [live_quarantine_iff h]
  constructor
  · intro hnone hreach hlive
    by_contra hnot
    rw [not_or] at hnot
    exact hnone hreach ⟨hlive, hnot⟩
  · rintro hdirect hreach ⟨hlive, hne, hnot⟩
    rcases hdirect hreach hlive with heq | huses
    · exact hne heq
    · exact hnot huses

/-- Whatever reaches the child, at any depth, does not resolve behind its quarantine. -/
theorem quarantine_blocks_resolve {child : SkillRef} {lib lib' : Library}
    (h : quarantineChildBlocksParents child lib = .ok lib') {ref : SkillRef} {entry : Entry}
    (hentry : lib'.get? ref = some entry) (hreach : TransGen lib'.Uses ref child) (depth : ℕ) :
    ∃ e, resolveUses lib' ref entry.version depth = .error e := by
  cases hresolve : resolveUses lib' ref entry.version depth with
  | error e => exact ⟨e, rfl⟩
  | ok out =>
    have hlive := (resolveUses_eq_ok hentry hresolve hreach).1
    exact absurd rfl ((live_quarantine_iff h child).mp hlive).2.1

namespace Composition

def parse : SkillRef := ⟨"parse", 1⟩

def clean : SkillRef := ⟨"clean", 2⟩

def report : SkillRef := ⟨"report", 3⟩

def approvedEntry (uses : List SkillRef) (h : uses.Nodup) : Entry where
  version := { taskClass := "etl", uses, usesUnique := h }
  status := some { lifecycle := .approved, active := true
                   activeRetrievable := approved_retrievable true }

/-- A chain of three live versions. -/
def chain : Library where
  entries :=
    { rows := [(parse, approvedEntry [] List.nodup_nil),
        (clean, approvedEntry [parse] (List.nodup_singleton _)),
        (report, approvedEntry [clean] (List.nodup_singleton _))]
      nodup := by simp [parse, clean, report] }
  index := Table.empty
  queue := []

theorem chain_getStatus : ∃ status, chain.getStatus parse = .ok status := ⟨_, rfl⟩

/-- The pins go to smaller version numbers. -/
theorem chain_uses {parent child : SkillRef} (h : chain.Uses parent child) :
    child.version < parent.version := by
  obtain ⟨entry, hentry, huses⟩ := h
  have hrow := Table.get?_eq_some.mp hentry
  simp only [chain, List.mem_cons, Prod.mk.injEq, List.not_mem_nil, or_false] at hrow
  rcases hrow with ⟨rfl, rfl⟩ | ⟨rfl, rfl⟩ | ⟨rfl, rfl⟩
  · cases huses
  · rw [List.mem_singleton.mp huses]
    decide
  · rw [List.mem_singleton.mp huses]
    decide

theorem chain_acyclic (ref : SkillRef) : ¬ TransGen chain.Uses ref ref := by
  intro hcycle
  have hless : ∀ a b, TransGen chain.Uses a b → b.version < a.version := by
    intro a b hreach
    induction hreach with
    | single huses => exact chain_uses huses
    | tail _ huses ih => exact (chain_uses huses).trans ih
  exact absurd (hless ref ref hcycle) (Nat.lt_irrefl _)

end Composition

theorem quarantine_reaches_iff_chain :
    ∃ lib', quarantineChildBlocksParents Composition.parse Composition.chain = .ok lib' ∧
      ((∀ ref, TransGen lib'.Uses ref Composition.parse → ¬ lib'.Live ref) ↔
        ∀ ref, TransGen Composition.chain.Uses ref Composition.parse →
          Composition.chain.Live ref →
            ref = Composition.parse ∨ Composition.chain.Uses ref Composition.parse) := by
  obtain ⟨status, hstatus⟩ := Composition.chain_getStatus
  obtain ⟨lib', hlib', -⟩ := quarantineChild_moves hstatus
  exact ⟨lib', hlib', quarantine_reaches_iff hlib'⟩

/-- The quarantine of the last of a chain leaves the first live. -/
theorem grandparent_stays_live :
    ¬ ∀ (lib lib' : Library) (child : SkillRef), (∀ ref, ¬ TransGen lib.Uses ref ref) →
      quarantineChildBlocksParents child lib = .ok lib' →
      ∀ ref, TransGen lib'.Uses ref child → ¬ lib'.Live ref := by
  intro h
  obtain ⟨status, hstatus⟩ := Composition.chain_getStatus
  obtain ⟨lib', hlib', hmoves⟩ := quarantineChild_moves hstatus
  have huses := uses_congr hmoves
  have hfirst : Composition.chain.Uses Composition.report Composition.clean :=
    ⟨_, rfl, List.mem_singleton_self _⟩
  have hlast : Composition.chain.Uses Composition.clean Composition.parse :=
    ⟨_, rfl, List.mem_singleton_self _⟩
  have hreach : TransGen lib'.Uses Composition.report Composition.parse := by
    rw [huses]
    exact (TransGen.single hfirst).tail hlast
  apply h _ _ _ Composition.chain_acyclic hlib' Composition.report hreach
  rw [live_quarantine_iff hlib']
  refine ⟨⟨_, rfl, rfl⟩, by decide, fun hdirect => ?_⟩
  obtain ⟨entry, hentry, hmem⟩ := hdirect
  cases hentry
  exact absurd hmem (by decide)

end Recertia.Skill
