import Mathlib.Data.Nat.Basic
import Recertia.Lib.Transition

/-! Clients of one store: each looks at it without the lock, and writes it, statement by statement,
in a transaction under the write lock. What the clients commit is what their transactions do one
after the other, each from the contents that the one before it committed. -/
namespace LockedWriter

/-- The program of a client over contents `C`: `W` is a transaction in progress, `L` what one has
done when it commits. -/
structure Program (C W L R E : Type*) where
  /-- the first look; whether to read on or to take the lock at once -/
  glance : C → Except E Bool
  /-- the second look; an answer without the lock, if there is one -/
  read : C → Except E (Option R)
  start : C → W
  /-- the next statement, or the commit -/
  step : W → Except E (W ⊕ C × L)
  outcome : L → Except E R

inductive Phase (R E : Type*)
  | opening
  | reading
  | waiting
  | writing
  | returned (result : R)
  | raised (error : E)
  | gone
  deriving DecidableEq

structure State (C W L R E : Type*) where
  committed : C
  writer : Option (ℕ × W) := none
  phase : ℕ → Phase R E := fun _ => .opening
  log : List L := []

inductive Label (E : Type*)
  | glance (client : ℕ)
  | read (client : ℕ)
  | lock (client : ℕ)
  | work (client : ℕ)
  /-- an error of the storage, which a client meets before it has returned -/
  | fault (client : ℕ) (error : E)
  | crash (client : ℕ)

variable {C W L R E : Type*}

def State.setPhase (s : State C W L R E) (client : ℕ) (phase : Phase R E) : State C W L R E :=
  { s with phase := fun i => if i = client then phase else s.phase i }

/-- The rollback of a client's transaction, if it has one. -/
def State.release (s : State C W L R E) (client : ℕ) : State C W L R E :=
  { s with writer := s.writer.filter fun w => w.1 ≠ client }

def Phase.ofOutcome : Except E R → Phase R E
  | .ok r => .returned r
  | .error e => .raised e

def Phase.isOver : Phase R E → Bool
  | .returned _ | .raised _ | .gone => true
  | _ => false

def step (P : Program C W L R E) (s : State C W L R E) : Label E → Option (State C W L R E)
  | .glance i =>
    match s.phase i with
    | .opening =>
      match P.glance s.committed with
      | .ok true => some (s.setPhase i .reading)
      | .ok false => some (s.setPhase i .waiting)
      | .error e => some (s.setPhase i (.raised e))
    | _ => none
  | .read i =>
    match s.phase i with
    | .reading =>
      match P.read s.committed with
      | .ok none => some (s.setPhase i .waiting)
      | .ok (some r) => some (s.setPhase i (.returned r))
      | .error e => some (s.setPhase i (.raised e))
    | _ => none
  | .lock i =>
    match s.phase i, s.writer with
    | .waiting, none =>
      some { s.setPhase i .writing with writer := some (i, P.start s.committed) }
    | _, _ => none
  | .work i =>
    match s.writer with
    | some (client, w) =>
      if client ≠ i then none
      else match P.step w with
        | .ok (.inl w') => some { s with writer := some (i, w') }
        | .ok (.inr (c, l)) =>
          some { s.setPhase i (.ofOutcome (P.outcome l)) with
                 committed := c, writer := none, log := s.log ++ [l] }
        | .error e => some ((s.release i).setPhase i (.raised e))
    | none => none
  | .fault i e =>
    if (s.phase i).isOver then none else some ((s.release i).setPhase i (.raised e))
  | .crash i =>
    if (s.phase i).isOver then none else some ((s.release i).setPhase i .gone)

def system (P : Program C W L R E) : Transition.System (State C W L R E) (Label E) := ⟨step P⟩

/-- What a transaction comes to behind a statement. -/
def following (finish : W → Except E (C × L)) : Except E (W ⊕ C × L) → Except E (C × L)
  | .ok (.inl w) => finish w
  | .ok (.inr r) => .ok r
  | .error e => .error e

/-- The transactions of a program come to the pass, whichever statement they are at. -/
structure Computes (P : Program C W L R E) (pass : C → Except E (C × L))
    (finish : W → Except E (C × L)) : Prop where
  start : ∀ c, finish (P.start c) = pass c
  step : ∀ w, finish w = following finish (P.step w)

/-- Passes one after the other. -/
inductive Chain (pass : C → Except E (C × L)) (c₀ : C) : List L → C → Prop
  | nil : Chain pass c₀ [] c₀
  | snoc {log : List L} {c c' : C} {l : L} :
    Chain pass c₀ log c → pass c = .ok (c', l) → Chain pass c₀ (log ++ [l]) c'

variable {P : Program C W L R E} {pass : C → Except E (C × L)} {finish : W → Except E (C × L)}

/-- What a step can do: look, take the lock, run a statement, commit, or give up. -/
theorem step_cases {s t : State C W L R E} {l : Label E} (h : step P s l = some t) :
    (∃ i phase, t = s.setPhase i phase ∧
      ∀ r, phase = .returned r → P.read s.committed = .ok (some r)) ∨
    (∃ i, s.writer = none ∧
      t = { s.setPhase i .writing with writer := some (i, P.start s.committed) }) ∨
    (∃ i w w', s.writer = some (i, w) ∧ P.step w = .ok (.inl w') ∧
      t = { s with writer := some (i, w') }) ∨
    (∃ i w c l', s.writer = some (i, w) ∧ P.step w = .ok (.inr (c, l')) ∧
      t = { s.setPhase i (.ofOutcome (P.outcome l')) with
            committed := c, writer := none, log := s.log ++ [l'] }) ∨
    (∃ i phase, t = (s.release i).setPhase i phase ∧ ∀ r, phase ≠ .returned r) := by
  cases l with
  | glance i =>
    simp only [step] at h
    split at h
    · split at h <;> cases h <;> exact .inl ⟨i, _, rfl, fun r hr => by cases hr⟩
    · cases h
  | read i =>
    simp only [step] at h
    split at h
    · split at h
      · cases h
        exact .inl ⟨i, _, rfl, fun r hr => by cases hr⟩
      · rename_i hread
        cases h
        refine .inl ⟨i, _, rfl, fun r hr => ?_⟩
        cases hr
        exact hread
      · cases h
        exact .inl ⟨i, _, rfl, fun r hr => by cases hr⟩
    · cases h
  | lock i =>
    simp only [step] at h
    split at h
    · rename_i hnone
      cases h
      exact .inr (.inl ⟨i, hnone, rfl⟩)
    · cases h
  | work i =>
    simp only [step] at h
    split at h
    · rename_i client w hwriter
      split at h
      · cases h
      · rename_i hclient
        rw [not_not] at hclient
        subst hclient
        split at h
        · rename_i w' hstep
          cases h
          exact .inr (.inr (.inl ⟨client, w, w', hwriter, hstep, rfl⟩))
        · rename_i c l' hstep
          cases h
          exact .inr (.inr (.inr (.inl ⟨client, w, c, l', hwriter, hstep, rfl⟩)))
        · cases h
          exact .inr (.inr (.inr (.inr ⟨client, _, rfl, fun r hr => by cases hr⟩)))
    · cases h
  | fault i e =>
    simp only [step] at h
    split at h
    · cases h
    · cases h
      exact .inr (.inr (.inr (.inr ⟨i, _, rfl, fun r hr => by cases hr⟩)))
  | crash i =>
    simp only [step] at h
    split at h
    · cases h
    · cases h
      exact .inr (.inr (.inr (.inr ⟨i, _, rfl, fun r hr => by cases hr⟩)))

/-- The committed contents are those of the passes in the log, and the transaction under way is a
pass from them. -/
structure Inv (pass : C → Except E (C × L)) (finish : W → Except E (C × L)) (c₀ : C)
    (s : State C W L R E) : Prop where
  chain : Chain pass c₀ s.log s.committed
  writer : ∀ i w, s.writer = some (i, w) → finish w = pass s.committed

/-- A commit is that of a pass from the contents that are committed. -/
theorem Inv.pass_of_commit (H : Computes P pass finish) {c₀ c : C} {s : State C W L R E}
    (hs : Inv pass finish c₀ s) {i : ℕ} {w : W} {l : L} (hwriter : s.writer = some (i, w))
    (hstep : P.step w = .ok (.inr (c, l))) : pass s.committed = .ok (c, l) := by
  have hfinish := H.step w
  rw [hstep] at hfinish
  exact (hs.writer i w hwriter).symm.trans hfinish

theorem Inv.step (H : Computes P pass finish) {c₀ : C} {s t : State C W L R E} {l : Label E}
    (hs : Inv pass finish c₀ s) (h : LockedWriter.step P s l = some t) : Inv pass finish c₀ t := by
  obtain ⟨i, phase, rfl, -⟩ | ⟨i, -, rfl⟩ | ⟨i, w, w', hwriter, hstep, rfl⟩ |
    ⟨i, w, c, l', hwriter, hstep, rfl⟩ | ⟨i, phase, rfl, -⟩ := step_cases h
  · exact ⟨hs.chain, hs.writer⟩
  · refine ⟨hs.chain, fun j w hw => ?_⟩
    cases hw
    exact H.start s.committed
  · refine ⟨hs.chain, fun j w'' hw => ?_⟩
    cases hw
    have hfinish := H.step w
    rw [hstep] at hfinish
    exact hfinish.symm.trans (hs.writer i w hwriter)
  · have hpass : pass s.committed = .ok (c, l') := hs.pass_of_commit H hwriter hstep
    exact ⟨hs.chain.snoc hpass, fun j w'' hw => by cases hw⟩
  · refine ⟨hs.chain, fun j w hw => ?_⟩
    have hwriter : s.writer = some (j, w) := (Option.filter_eq_some_iff.mp hw).1
    exact hs.writer j w hwriter

theorem Inv.start (c₀ : C) :
    Inv pass finish c₀ ({ committed := c₀ } : State C W L R E) :=
  ⟨.nil, fun i w hw => by cases hw⟩

/-- In every run, what is committed is what the logged passes do one after the other. -/
theorem chain_of_run (H : Computes P pass finish) {c₀ : C} {ls : List (Label E)} {s : State C W L R E}
    (h : (system P).run { committed := c₀ } ls = some s) : Chain pass c₀ s.log s.committed := by
  have hinv : Inv pass finish c₀ s :=
    Transition.System.run_invariant (fun _ _ _ hs ht => hs.step H ht) (Inv.start c₀) h
  exact hinv.chain

/-- Where every answer, with or without the lock, finds the contents good, and the passes keep them
so, they are good in every run behind the first client that has returned. -/
theorem good_of_returned (H : Computes P pass finish) {Good : C → Prop}
    (hread : ∀ c r, P.read c = .ok (some r) → Good c)
    (hpass : ∀ c c' l, pass c = .ok (c', l) → Good c → Good c')
    (houtcome : ∀ c c' l r, pass c = .ok (c', l) → P.outcome l = .ok r → Good c')
    {c₀ : C} {ls : List (Label E)} {s : State C W L R E}
    (h : (system P).run { committed := c₀ } ls = some s) {i : ℕ} {r : R}
    (hi : s.phase i = .returned r) : Good s.committed := by
  let I : State C W L R E → Prop := fun s =>
    Inv pass finish c₀ s ∧ ∀ i r, s.phase i = .returned r → Good s.committed
  have hphase {s : State C W L R E} {i j : ℕ} {phase : Phase R E} {r : R}
      (h : (s.setPhase i phase).phase j = .returned r) :
      phase = .returned r ∨ s.phase j = .returned r := by
    simp only [State.setPhase] at h
    split at h
    · exact .inl h
    · exact .inr h
  have hstart : I { committed := c₀ } := ⟨Inv.start c₀, fun i r hr => by cases hr⟩
  have hstep : ∀ s l t, I s → (system P).step s l = some t → I t := by
    rintro s l t ⟨hs, hgood⟩ ht
    refine ⟨hs.step H ht, ?_⟩
    obtain ⟨i, phase, rfl, hphase'⟩ | ⟨i, -, rfl⟩ | ⟨i, w, w', -, -, rfl⟩ |
      ⟨i, w, c, l', hwriter, hstep, rfl⟩ | ⟨i, phase, rfl, hphase'⟩ := step_cases ht
    · intro j r hr
      rcases hphase hr with heq | hr
      · exact hread _ r (hphase' r heq)
      · exact hgood j r hr
    · intro j r hr
      rcases hphase hr with heq | hr
      · cases heq
      · exact hgood j r hr
    · exact hgood
    · have hp : pass s.committed = .ok (c, l') := hs.pass_of_commit H hwriter hstep
      intro j r hr
      rcases hphase hr with heq | hr
      · cases hout : P.outcome l' with
        | error e =>
          rw [hout] at heq
          cases heq
        | ok r' => exact houtcome _ _ _ r' hp hout
      · exact hpass _ _ _ hp (hgood j r hr)
    · intro j r hr
      rcases hphase hr with heq | hr
      · exact absurd heq (hphase' r)
      · exact hgood j r hr
  have hI : I s := Transition.System.run_invariant hstep hstart h
  exact hI.2 i r hi

end LockedWriter
