import Mathlib.Data.List.Chain
import Mathlib.Data.List.DropRight
import Mathlib.Data.List.Sort
import Mathlib.Data.Rat.Defs
import Mathlib.Algebra.Order.Ring.Rat
import Mathlib.Logic.Function.Basic
import Recertia.Lib.Text
import Recertia.Lib.Transition

/-! The fact store: one file for each scope and slug, and the demotion of two facts of which one
contradicts the other. -/
namespace Recertia.Facts

def isSlugChar (c : Char) : Bool := c.isLower || c.isDigit || c = '-'

/-- `^[a-z0-9]+(-[a-z0-9]+)*$` -/
def IsSlug (s : List Char) : Prop :=
  (∀ c ∈ s, isSlugChar c = true) ∧ s.head?.any (· ≠ '-') = true ∧ s.getLast?.any (· ≠ '-') = true ∧
    s.IsChain fun a b => a ≠ '-' ∨ b ≠ '-'

instance (s : List Char) : Decidable (IsSlug s) :=
  haveI : Decidable (∀ c ∈ s, isSlugChar c = true) := List.decidableBAll _ s
  inferInstanceAs (Decidable (_ ∧ _))

structure Slug where
  chars : List Char
  valid : IsSlug chars
  deriving DecidableEq

def Slug.text (slug : Slug) : String := String.ofList slug.chars

/-- `f"{slug}-conflict-{fact_id}"[:64].strip("-")` -/
def conflictChars (slug factId : Slug) : List Char :=
  Text.stripChars (· = '-') ((slug.chars ++ "-conflict-".toList ++ factId.chars).take 64)

/-- Behind a first character that stays, stripping leaves a prefix that ends as a slug does. -/
theorem isSlug_strip {c : Char} {cs : List Char} (hc : c ≠ '-')
    (hchars : ∀ a ∈ c :: cs, isSlugChar a = true)
    (hchain : (c :: cs).IsChain fun a b => a ≠ '-' ∨ b ≠ '-') :
    IsSlug (Text.stripChars (· = '-') (c :: cs)) := by
  have hstrip : Text.stripChars (· = '-') (c :: cs) = (c :: cs).rdropWhile (· = '-') := by
    rw [Text.stripChars, List.dropWhile_cons_of_neg (by simpa using hc)]
    rfl
  rw [hstrip]
  have hinit : (c :: cs).rdropWhile (· = '-') <+: c :: cs := List.rdropWhile_prefix _ _
  have hne : (c :: cs).rdropWhile (· = '-') ≠ [] := by
    intro hnil
    have hall := List.rdropWhile_eq_nil_iff.mp hnil c List.mem_cons_self
    exact hc (by simpa using hall)
  refine ⟨fun a ha => hchars a (hinit.subset ha), ?_, ?_, hchain.infix hinit.isInfix⟩
  · obtain ⟨d, ds, hd⟩ := List.exists_cons_of_ne_nil hne
    rw [hd] at hinit ⊢
    have hdc : d = c := (List.cons_prefix_cons.mp hinit).1
    simpa [hdc] using hc
  · have hlast := List.rdropWhile_last_not (· = '-') (c :: cs) hne
    rw [List.getLast?_eq_some_getLast hne]
    simpa using hlast

theorem isSlug_conflict (slug factId : Slug) : IsSlug (conflictChars slug factId) := by
  obtain ⟨hchars, hhead, hlast, hchain⟩ := slug.valid
  obtain ⟨hchars', hhead', -, hchain'⟩ := factId.valid
  have hmiddle : ∀ a ∈ "-conflict-".toList, isSlugChar a = true :=
    List.all_eq_true.mp (by decide +kernel)
  have hmiddle' : "-conflict-".toList.IsChain fun a b => a ≠ '-' ∨ b ≠ '-' := by decide +kernel
  have hall : ∀ a ∈ slug.chars ++ "-conflict-".toList ++ factId.chars, isSlugChar a = true := by
    intro a ha
    rcases List.mem_append.mp ha with ha | ha
    · rcases List.mem_append.mp ha with ha | ha
      · exact hchars a ha
      · exact hmiddle a ha
    · exact hchars' a ha
  have hfront : (slug.chars ++ "-conflict-".toList).IsChain fun a b => a ≠ '-' ∨ b ≠ '-' := by
    apply hchain.append hmiddle'
    intro a ha b _
    rw [Option.mem_def.mp ha] at hlast
    exact .inl (by simpa using hlast)
  have hwhole : (slug.chars ++ "-conflict-".toList ++ factId.chars).IsChain
      fun a b => a ≠ '-' ∨ b ≠ '-' := by
    apply hfront.append hchain'
    intro a _ b hb
    rw [Option.mem_def.mp hb] at hhead'
    exact .inr (by simpa using hhead')
  cases hslug : slug.chars with
  | nil =>
    rw [hslug] at hhead
    cases hhead
  | cons c cs =>
    rw [hslug] at hhead hall hwhole
    have hc : c ≠ '-' := by simpa using hhead
    have hcut : (c :: cs ++ "-conflict-".toList ++ factId.chars).take 64 =
        c :: (cs ++ "-conflict-".toList ++ factId.chars).take 63 := rfl
    have hall' := fun a ha => hall a (List.mem_of_mem_take (i := 64) ha)
    have hwhole' := hwhole.take 64
    rw [hcut] at hall' hwhole'
    rw [conflictChars, hslug, hcut]
    exact isSlug_strip hc hall' hwhole'

/-! ### Facts -/

inductive Scope
  | run | project | org | global
  deriving DecidableEq, Repr

inductive FactStatus
  | asserted | verified | contradicted | demoted
  deriving DecidableEq, Repr

structure FactProvenance where
  assertingRun : Option String := none
  assertingJob : Option String := none
  assertingHuman : Option String := none
  evidence : Option String := none
  deriving DecidableEq, Repr

structure Fact where
  factId : Slug
  scope : Scope := .project
  slug : Slug
  assertion : String
  status : FactStatus := .asserted
  confidence : ℚ := 1 / 2
  provenance : FactProvenance := {}
  verifiedAt : Option Int := none
  contradicts : List String := []
  authoredAt : Int
  deriving DecidableEq

/-- The path below the root. -/
abbrev Path := Scope × Slug

def Fact.path (fact : Fact) : Path := (fact.scope, fact.slug)

/-- A line of the review queue. -/
structure QueueEntry where
  existing : Slug
  incoming : Slug
  scope : Scope
  deriving DecidableEq

/-- The files of the store, each of which holds a fact of its path. -/
structure FactStore where
  files : Path → Option Fact
  queue : List QueueEntry := []
  filed : ∀ path fact, files path = some fact → fact.path = path

def FactStore.empty : FactStore where
  files _ := none
  filed _ _ h := by cases h

def FactStore.put (store : FactStore) (fact : Fact) : FactStore where
  files := Function.update store.files fact.path (some fact)
  queue := store.queue
  filed path other h := by
    rw [Function.update_apply] at h
    split at h
    · rename_i hpath
      rw [← Option.some.inj h, hpath]
    · exact store.filed path other h

/-- A fact that another one contradicts. -/
def Fact.contradictedBy (fact : Fact) (factId : Slug) : Fact :=
  { fact with
    status := .contradicted
    confidence := min fact.confidence (1 / 5)
    contradicts := (fact.contradicts ++ [factId.text]).dedup.insertionSort (· ≤ ·) }

/-- The slug that a fact goes to when it contradicts the one at its own. -/
def Fact.conflictSlug (fact : Fact) : Slug :=
  ⟨conflictChars fact.slug fact.factId, isSlug_conflict _ _⟩

def Fact.alternate (incoming existing : Fact) : Fact :=
  { incoming.contradictedBy existing.factId with slug := incoming.conflictSlug }

/-- `_record_contradiction` -/
def recordContradiction (existing incoming : Fact) (store : FactStore) : Fact × FactStore :=
  let alt := incoming.alternate existing
  let store := (store.put (existing.contradictedBy incoming.factId)).put alt
  (alt, { store with queue := store.queue ++ [⟨existing.factId, alt.factId, incoming.scope⟩] })

def write (store : FactStore) (fact : Fact) : Fact × FactStore :=
  match store.files fact.path with
  | some existing =>
    if existing.assertion ≠ fact.assertion then recordContradiction existing fact store
    else (fact, store.put fact)
  | none => (fact, store.put fact)

end Recertia.Facts
