import Mathlib.Data.List.Sort
import Mathlib.Data.Prod.Lex
import Mathlib.Data.String.Basic
import Mathlib.Logic.Relation
import Recertia.Lib.Transition

/-! The claim scheduler: steps take sets of claims in one global order, and wait on a condition, with
a deadline, for a claim that another step holds. -/
namespace Recertia.Claims

open Transition

inductive ResourceKind
  | file | path | service | rateLimit | lock | externalSystem
  deriving DecidableEq, Repr

inductive ResourceMode
  | read | write | exclusive
  deriving DecidableEq, Repr

structure ResourceClaim where
  kind : ResourceKind
  id : String
  mode : ResourceMode
  deriving DecidableEq, Repr

def ResourceKind.text : ResourceKind → String
  | .file => "file"
  | .path => "path"
  | .service => "service"
  | .rateLimit => "rate_limit"
  | .lock => "lock"
  | .externalSystem => "external_system"

abbrev ClaimKey := String ×ₗ String

/-- `sort_key` -/
def ResourceClaim.key (claim : ResourceClaim) : ClaimKey := toLex (claim.kind.text, claim.id)

def conflictsWith (a b : ResourceClaim) : Bool :=
  if a.kind ≠ b.kind ∨ a.id ≠ b.id then false
  else decide (a.mode = .write ∨ a.mode = .exclusive) ||
    decide (b.mode = .write ∨ b.mode = .exclusive)

abbrev StepId := String

abbrev Holders := ClaimKey → Option StepId

/-- An acquire that waits: what it has, what it waits for, and what comes behind that. -/
structure Blocked where
  acquired : List ResourceClaim
  claim : ResourceClaim
  rest : List ResourceClaim
  deriving DecidableEq, Repr

/-- `_holders`, and the acquires that wait. Beside them, what the acquires that have returned were
granted and the steps have not released, and the acquire that the last move has timed out. -/
structure Scheduler where
  holders : Holders
  waiting : StepId → Option Blocked
  granted : StepId → List ResourceClaim
  timedOut : Option (StepId × List ResourceClaim)

def setAt {α β : Type*} [DecidableEq α] (f : α → β) (a : α) (b : β) : α → β :=
  fun x => if x = a then b else f x

/-- The loop of `acquire`, until a claim that another step holds: the claims that it has then, and
those that are left. -/
def acquireFrom (step : StepId) :
    Holders → List ResourceClaim → List ResourceClaim →
      Holders × List ResourceClaim × List ResourceClaim
  | holders, acquired, [] => (holders, acquired, [])
  | holders, acquired, claim :: rest =>
    if holders claim.key = none ∨ holders claim.key = some step then
      acquireFrom step (setAt holders claim.key (some step)) (acquired ++ [claim]) rest
    else (holders, acquired, claim :: rest)

/-- `_release_unlocked` -/
def releaseUnlocked (step : StepId) (claims : List ResourceClaim) (holders : Holders) : Holders :=
  claims.foldl (fun holders claim =>
    if holders claim.key = some step then setAt holders claim.key none else holders) holders

/-- The loop of `acquire` from where it stands, up to its return, to its next wait, or to its
timeout if the deadline has passed. -/
def Scheduler.advance (s : Scheduler) (step : StepId) (acquired remaining : List ResourceClaim)
    (expired : Bool) : Scheduler :=
  let (holders, acquired, remaining) := acquireFrom step s.holders acquired remaining
  match remaining with
  | [] =>
    { holders, waiting := setAt s.waiting step none,
      granted := setAt s.granted step (s.granted step ++ acquired), timedOut := none }
  | claim :: rest =>
    if expired then
      { s with holders := releaseUnlocked step acquired holders,
               waiting := setAt s.waiting step none,
               timedOut := some (step, acquired ++ claim :: rest) }
    else
      { s with holders, waiting := setAt s.waiting step (some ⟨acquired, claim, rest⟩),
               timedOut := none }

def ordered (claims : List ResourceClaim) : List ResourceClaim :=
  claims.insertionSort fun a b => a.key ≤ b.key

def Scheduler.release (s : Scheduler) (step : StepId) (claims : List ResourceClaim) : Scheduler :=
  { s with holders := releaseUnlocked step claims s.holders,
           granted := setAt s.granted step
             ((s.granted step).filter fun g => g.key ∉ claims.map ResourceClaim.key),
           timedOut := none }

inductive SchedulerMove
  | acquire (step : StepId) (claims : List ResourceClaim) (expired : Bool)
  /-- the end of a wait: by a notification, by its deadline, or by itself -/
  | wake (step : StepId) (expired : Bool)
  | release (step : StepId) (claims : List ResourceClaim)

/-- Any interleaving of the steps; each is in one call at a time. -/
def scheduler : System Scheduler SchedulerMove where
  step s
    | .acquire step claims expired =>
      match s.waiting step with
      | some _ => none
      | none => some (s.advance step [] (ordered claims) expired)
    | .wake step expired =>
      match s.waiting step with
      | some b => some (s.advance step b.acquired (b.claim :: b.rest) expired)
      | none => none
    | .release step claims =>
      match s.waiting step with
      | some _ => none
      | none => some (s.release step claims)

def Scheduler.start : Scheduler := ⟨fun _ => none, fun _ => none, fun _ => [], none⟩

/-- A step holds a claim from its grant on, until it releases it or the acquire times out. -/
def Scheduler.Holds (s : Scheduler) (step : StepId) (claim : ResourceClaim) : Prop :=
  claim ∈ s.granted step ∨ ∃ b, s.waiting step = some b ∧ claim ∈ b.acquired

def Scheduler.WaitsFor (s : Scheduler) (a b : StepId) : Prop :=
  ∃ w, s.waiting a = some w ∧ s.holders w.claim.key = some b

/-- No two steps hold conflicting claims, no steps wait in a circle, and an acquire that times out
leaves none of its claims with its step. -/
structure Scheduler.Safe (s : Scheduler) : Prop where
  exclusive : ∀ a b c d, s.Holds a c → s.Holds b d → conflictsWith c d = true → a = b
  acyclic : ∀ a, ¬ Relation.TransGen s.WaitsFor a a
  timeout : ∀ step claims, s.timedOut = some (step, claims) →
    ∀ c ∈ claims, s.holders c.key ≠ some step ∧ ¬ s.Holds step c

/-- A step asks only for claims that sort behind all that it has been granted and not released. -/
def Scheduler.AsksBehind (s : Scheduler) : SchedulerMove → Prop
  | .acquire step claims _ => ∀ g ∈ s.granted step, ∀ c ∈ claims, g.key < c.key
  | .wake _ _ => True
  | .release _ _ => True

theorem setAt_self {α β : Type*} [DecidableEq α] (f : α → β) (a : α) (b : β) : setAt f a b a = b :=
  if_pos rfl

theorem setAt_of_ne {α β : Type*} [DecidableEq α] (f : α → β) {a x : α} (b : β) (h : x ≠ a) :
    setAt f a b x = f x := if_neg h

theorem key_eq_of_conflictsWith {c d : ResourceClaim} (h : conflictsWith c d = true) :
    c.key = d.key := by
  unfold conflictsWith at h
  split at h
  · cases h
  · rename_i hsame
    have hboth : c.kind = d.kind ∧ c.id = d.id := by simpa using hsame
    unfold ResourceClaim.key
    rw [hboth.1, hboth.2]

/-- What the loop of an acquire does: it takes the first of the claims that are left, from nobody,
up to one that another step holds. -/
structure Progress (step : StepId) (before : Holders) (acquired remaining taken : List ResourceClaim)
    (out : Holders × List ResourceClaim × List ResourceClaim) : Prop where
  acquired : out.2.1 = acquired ++ taken
  remaining : remaining = taken ++ out.2.2
  own : ∀ key, out.1 key = some step ↔ before key = some step ∨ ∃ c ∈ taken, c.key = key
  others : ∀ key t, t ≠ step → (out.1 key = some t ↔ before key = some t)
  blocked : ∀ claim rest, out.2.2 = claim :: rest → out.1 claim.key ≠ some step

theorem acquireFrom_progress (step : StepId) (holders : Holders)
    (acquired remaining : List ResourceClaim) : ∃ taken,
      Progress step holders acquired remaining taken
        (acquireFrom step holders acquired remaining) := by
  induction remaining generalizing holders acquired with
  | nil =>
    refine ⟨[], ?_, rfl, ?_, fun _ _ _ => Iff.rfl, fun _ _ h => by cases h⟩
    · simp [acquireFrom]
    · simp [acquireFrom]
  | cons claim rest ih =>
    unfold acquireFrom
    split
    · rename_i hfree
      obtain ⟨taken, hp⟩ := ih (setAt holders claim.key (some step)) (acquired ++ [claim])
      refine ⟨claim :: taken, ?_, ?_, fun key => ?_, fun key t ht => ?_, hp.blocked⟩
      · rw [hp.acquired, List.append_assoc, List.singleton_append]
      · rw [List.cons_append, ← hp.remaining]
      · rw [hp.own]
        by_cases hkey : key = claim.key
        · simp [hkey, setAt_self]
        · have hne : ¬ claim.key = key := fun h => hkey h.symm
          simp [setAt_of_ne _ _ hkey, hne]
      · rw [hp.others key t ht]
        by_cases hkey : key = claim.key
        · rw [hkey, setAt_self]
          constructor
          · exact fun h => absurd (Option.some.inj h).symm ht
          · intro h
            rcases hfree with hfree | hfree
            · rw [hfree] at h
              cases h
            · rw [hfree] at h
              exact absurd (Option.some.inj h).symm ht
        · rw [setAt_of_ne _ _ hkey]
    · rename_i hheld
      refine ⟨[], ?_, rfl, ?_, fun _ _ _ => Iff.rfl, fun c r h => ?_⟩
      · simp
      · simp
      · rw [← (List.cons.inj h).1]
        exact fun hown => hheld (Or.inr hown)

/-- The loop stops only in front of a claim that another step holds. -/
theorem acquireFrom_blocked {step : StepId} {holders : Holders}
    {acquired remaining : List ResourceClaim} {claim : ResourceClaim} {rest : List ResourceClaim}
    (h : (acquireFrom step holders acquired remaining).2.2 = claim :: rest) :
    ∃ other, other ≠ step ∧ (acquireFrom step holders acquired remaining).1 claim.key =
      some other := by
  induction remaining generalizing holders acquired with
  | nil => cases h
  | cons c remaining ih =>
    unfold acquireFrom at h ⊢
    by_cases hfree : holders c.key = none ∨ holders c.key = some step
    · rw [if_pos hfree] at h ⊢
      exact ih h
    · rw [if_neg hfree] at h ⊢
      obtain ⟨rfl, -⟩ := List.cons.inj h
      obtain ⟨hnone, hown⟩ := not_or.mp hfree
      obtain ⟨other, hother⟩ := Option.ne_none_iff_exists'.mp hnone
      refine ⟨other, ?_, hother⟩
      rintro rfl
      exact hown hother

theorem releaseUnlocked_own (step : StepId) (claims : List ResourceClaim) (holders : Holders)
    (key : ClaimKey) : releaseUnlocked step claims holders key = some step ↔
      holders key = some step ∧ key ∉ claims.map ResourceClaim.key := by
  induction claims generalizing holders with
  | nil => simp [releaseUnlocked]
  | cons claim claims ih =>
    unfold releaseUnlocked at ih ⊢
    rw [List.foldl_cons, ih, List.map_cons, List.mem_cons, not_or]
    by_cases hkey : key = claim.key
    · subst hkey
      split
      · simp [setAt_self]
      · rename_i hheld
        simp [hheld]
    · have hsame : (if holders claim.key = some step then setAt holders claim.key none
          else holders) key = holders key := by
        split
        · exact setAt_of_ne _ _ hkey
        · rfl
      rw [hsame]
      simp [hkey]

theorem releaseUnlocked_others {step t : StepId} (ht : t ≠ step) (claims : List ResourceClaim)
    (holders : Holders) (key : ClaimKey) :
    releaseUnlocked step claims holders key = some t ↔ holders key = some t := by
  induction claims generalizing holders with
  | nil => rfl
  | cons claim claims ih =>
    unfold releaseUnlocked at ih ⊢
    rw [List.foldl_cons, ih]
    split
    · rename_i hheld
      by_cases hkey : key = claim.key
      · rw [hkey, setAt_self, hheld]
        constructor
        · exact fun h => by cases h
        · exact fun h => absurd (Option.some.inj h).symm ht
      · rw [setAt_of_ne _ _ hkey]
    · rfl

/-- What one step sees: it is the holder of just the claims that it has, and those of its acquire
are in order, behind what it was granted before. -/
structure View (holders : Holders) (step : StepId)
    (granted acquired remaining : List ResourceClaim) : Prop where
  own : ∀ key, holders key = some step ↔ ∃ c ∈ granted ++ acquired, c.key = key
  sorted : (acquired ++ remaining).Pairwise fun a b => a.key ≤ b.key
  behind : ∀ g ∈ granted, ∀ c ∈ acquired ++ remaining, g.key < c.key

theorem View.congr {holders holders' : Holders} {step : StepId}
    {granted acquired remaining : List ResourceClaim} (h : View holders step granted acquired remaining)
    (hsame : ∀ key, holders' key = some step ↔ holders key = some step) :
    View holders' step granted acquired remaining :=
  ⟨fun key => (hsame key).trans (h.own key), h.sorted, h.behind⟩

theorem View.progress {holders : Holders} {step : StepId}
    {granted acquired remaining taken : List ResourceClaim}
    {out : Holders × List ResourceClaim × List ResourceClaim}
    (h : View holders step granted acquired remaining)
    (hp : Progress step holders acquired remaining taken out) :
    View out.1 step granted out.2.1 out.2.2 := by
  have hall : out.2.1 ++ out.2.2 = acquired ++ remaining := by
    rw [hp.acquired, hp.remaining, List.append_assoc]
  refine ⟨fun key => ?_, hall ▸ h.sorted, hall ▸ h.behind⟩
  rw [hp.own, h.own, hp.acquired, ← List.append_assoc]
  simp only [List.mem_append, or_and_right, exists_or]

/-- In front of a claim that another step holds, a step has only what sorts before it. -/
theorem View.lt_of_not_own {holders : Holders} {step : StepId}
    {granted acquired rest : List ResourceClaim} {claim : ResourceClaim}
    (h : View holders step granted acquired (claim :: rest))
    (hother : holders claim.key ≠ some step) : ∀ a ∈ acquired, a.key < claim.key := by
  intro a ha
  have hle := (List.pairwise_append.mp h.sorted).2.2 a ha claim List.mem_cons_self
  apply lt_of_le_of_ne hle
  intro heq
  apply hother
  rw [← heq]
  exact (h.own a.key).mpr ⟨a, List.mem_append_right _ ha, rfl⟩

/-- A timeout gives back the claims of the acquire, and these alone. -/
theorem View.timeout {holders : Holders} {step : StepId}
    {granted acquired rest : List ResourceClaim} {claim : ResourceClaim}
    (h : View holders step granted acquired (claim :: rest)) :
    View (releaseUnlocked step acquired holders) step granted [] [] ∧
      ∀ c ∈ acquired ++ claim :: rest, releaseUnlocked step acquired holders c.key ≠ some step := by
  have hgranted : ∀ key, releaseUnlocked step acquired holders key = some step ↔
      ∃ c ∈ granted, c.key = key := by
    intro key
    rw [releaseUnlocked_own, h.own]
    constructor
    · rintro ⟨⟨c, hc, rfl⟩, hnot⟩
      rcases List.mem_append.mp hc with hc | hc
      · exact ⟨c, hc, rfl⟩
      · exact absurd (List.mem_map_of_mem hc) hnot
    · rintro ⟨c, hc, rfl⟩
      refine ⟨⟨c, List.mem_append_left _ hc, rfl⟩, fun hmem => ?_⟩
      obtain ⟨a, ha, heq⟩ := List.mem_map.mp hmem
      have hlt := h.behind c hc a (List.mem_append_left _ ha)
      rw [heq] at hlt
      exact lt_irrefl _ hlt
  refine ⟨⟨fun key => ?_, List.Pairwise.nil, fun g _ c hc => absurd hc List.not_mem_nil⟩, ?_⟩
  · rw [hgranted, List.append_nil]
  · intro c hc hown
    obtain ⟨g, hg, heq⟩ := (hgranted c.key).mp hown
    have hlt := h.behind g hg c hc
    rw [heq] at hlt
    exact lt_irrefl _ hlt

/-- What holds between the moves. -/
structure Scheduler.Ok (s : Scheduler) : Prop where
  idle : ∀ step, s.waiting step = none → View s.holders step (s.granted step) [] []
  blocked : ∀ step b, s.waiting step = some b →
    View s.holders step (s.granted step) b.acquired (b.claim :: b.rest) ∧
      ∀ a ∈ b.acquired, a.key < b.claim.key
  timeout : ∀ step claims, s.timedOut = some (step, claims) → s.waiting step = none ∧
    ∀ c ∈ claims, s.holders c.key ≠ some step

/-- A move of one step leaves the views of the others. -/
theorem Scheduler.Ok.of_move {s t : Scheduler} (h : s.Ok) (step : StepId)
    (hwaiting : ∀ a, a ≠ step → t.waiting a = s.waiting a)
    (hgranted : ∀ a, a ≠ step → t.granted a = s.granted a)
    (hothers : ∀ key a, a ≠ step → (t.holders key = some a ↔ s.holders key = some a))
    (hidle : t.waiting step = none → View t.holders step (t.granted step) [] [])
    (hblocked : ∀ b, t.waiting step = some b →
      View t.holders step (t.granted step) b.acquired (b.claim :: b.rest) ∧
        ∀ a ∈ b.acquired, a.key < b.claim.key)
    (htimeout : ∀ a claims, t.timedOut = some (a, claims) → t.waiting a = none ∧
      ∀ c ∈ claims, t.holders c.key ≠ some a) : t.Ok := by
  refine ⟨fun a ha => ?_, fun a b hb => ?_, htimeout⟩
  · by_cases hstep : a = step
    · rw [hstep] at ha ⊢
      exact hidle ha
    · rw [hwaiting a hstep] at ha
      rw [hgranted a hstep]
      exact (h.idle a ha).congr fun key => hothers key a hstep
  · by_cases hstep : a = step
    · rw [hstep] at hb ⊢
      exact hblocked b hb
    · rw [hwaiting a hstep] at hb
      rw [hgranted a hstep]
      obtain ⟨hview, hlt⟩ := h.blocked a b hb
      exact ⟨hview.congr fun key => hothers key a hstep, hlt⟩

theorem advance_ok {s : Scheduler} {step : StepId} {acquired remaining : List ResourceClaim}
    (h : s.Ok) (hview : View s.holders step (s.granted step) acquired remaining) (expired : Bool) :
    (s.advance step acquired remaining expired).Ok := by
  obtain ⟨taken, hp⟩ := acquireFrom_progress step s.holders acquired remaining
  have hview' := hview.progress hp
  unfold Scheduler.advance
  generalize acquireFrom step s.holders acquired remaining = out at hp hview'
  obtain ⟨holders, acquired', remaining'⟩ := out
  have hothers : ∀ key a, a ≠ step → (holders key = some a ↔ s.holders key = some a) := hp.others
  dsimp only at hview' ⊢
  cases remaining' with
  | nil =>
    refine h.of_move step (fun a ha => setAt_of_ne _ _ ha) (fun a ha => setAt_of_ne _ _ ha) hothers
      ?_ ?_ ?_
    · intro _
      refine ⟨fun key => ?_, List.Pairwise.nil, fun g _ c hc => absurd hc List.not_mem_nil⟩
      dsimp only
      rw [setAt_self, List.append_nil]
      exact hview'.own key
    · intro b hb
      dsimp only at hb
      rw [setAt_self] at hb
      cases hb
    · intro a claims ha
      cases ha
  | cons claim rest =>
    have hother : holders claim.key ≠ some step := hp.blocked claim rest rfl
    dsimp only
    split
    · obtain ⟨hidle, hclaims⟩ := hview'.timeout
      refine h.of_move step (fun a ha => setAt_of_ne _ _ ha) (fun _ _ => rfl) ?_ ?_ ?_ ?_
      · intro key a ha
        exact (releaseUnlocked_others ha _ _ _).trans (hothers key a ha)
      · exact fun _ => hidle
      · intro b hb
        dsimp only at hb
        rw [setAt_self] at hb
        cases hb
      · intro a claims ha
        cases ha
        exact ⟨setAt_self _ _ _, hclaims⟩
    · refine h.of_move step (fun a ha => setAt_of_ne _ _ ha) (fun _ _ => rfl) hothers ?_ ?_ ?_
      · intro hnone
        dsimp only at hnone
        rw [setAt_self] at hnone
        cases hnone
      · intro b hb
        dsimp only at hb
        rw [setAt_self] at hb
        cases hb
        exact ⟨hview', hview'.lt_of_not_own hother⟩
      · intro a claims ha
        cases ha

theorem release_ok {s : Scheduler} {step : StepId} (h : s.Ok) (hidle : s.waiting step = none)
    (claims : List ResourceClaim) : (s.release step claims).Ok := by
  refine h.of_move step (fun _ _ => rfl) (fun a ha => setAt_of_ne _ _ ha) ?_ ?_ ?_ ?_
  · exact fun key a ha => releaseUnlocked_others ha _ _ _
  · intro _
    refine ⟨fun key => ?_, List.Pairwise.nil, fun g _ c hc => absurd hc List.not_mem_nil⟩
    simp only [Scheduler.release, setAt_self, releaseUnlocked_own, (h.idle step hidle).own,
      List.append_nil, List.mem_filter, decide_eq_true_eq]
    constructor
    · rintro ⟨⟨c, hc, rfl⟩, hnot⟩
      exact ⟨c, ⟨hc, hnot⟩, rfl⟩
    · rintro ⟨c, ⟨hc, hnot⟩, rfl⟩
      exact ⟨⟨c, hc, rfl⟩, hnot⟩
  · intro b hb
    rw [show (s.release step claims).waiting step = none from hidle] at hb
    cases hb
  · intro a cs ha
    cases ha

theorem mem_ordered {claims : List ResourceClaim} {c : ResourceClaim} :
    c ∈ ordered claims ↔ c ∈ claims := List.mem_insertionSort _

theorem ordered_sorted (claims : List ResourceClaim) :
    (ordered claims).Pairwise fun a b => a.key ≤ b.key := by
  have htotal : Std.Total fun a b : ResourceClaim => a.key ≤ b.key :=
    ⟨fun a b => le_total a.key b.key⟩
  have htrans : IsTrans ResourceClaim fun a b => a.key ≤ b.key :=
    ⟨fun _ _ _ => le_trans⟩
  exact List.pairwise_insertionSort _ claims

theorem scheduler_step_ok {s t : Scheduler} {move : SchedulerMove} (h : s.Ok)
    (ht : scheduler.step s move = some t) (hbehind : s.AsksBehind move) : t.Ok := by
  cases move with
  | acquire step claims expired =>
    simp only [scheduler] at ht
    split at ht
    · cases ht
    · rename_i hidle
      cases ht
      have hown := (h.idle step hidle).own
      refine advance_ok h ⟨hown, ordered_sorted claims, fun g hg c hc => ?_⟩ expired
      exact hbehind g hg c (mem_ordered.mp hc)
  | wake step expired =>
    simp only [scheduler] at ht
    split at ht
    · rename_i b hb
      cases ht
      exact advance_ok h (h.blocked step b hb).1 expired
    · cases ht
  | release step claims =>
    simp only [scheduler] at ht
    split at ht
    · cases ht
    · rename_i hidle
      cases ht
      exact release_ok h hidle claims

theorem start_ok : Scheduler.start.Ok where
  idle := fun step _ => ⟨fun key => by simp [Scheduler.start], List.Pairwise.nil,
    fun g hg => absurd hg List.not_mem_nil⟩
  blocked := fun step b hb => by cases hb
  timeout := fun step claims h => by cases h

/-- A step is the holder of every claim that it holds. -/
theorem Scheduler.Ok.holder {s : Scheduler} (h : s.Ok) {step : StepId} {claim : ResourceClaim}
    (hholds : s.Holds step claim) : s.holders claim.key = some step := by
  rcases hholds with hgranted | ⟨b, hb, hacquired⟩
  · cases hwaiting : s.waiting step with
    | none =>
      exact ((h.idle step hwaiting).own _).mpr ⟨claim, List.mem_append_left _ hgranted, rfl⟩
    | some b =>
      exact ((h.blocked step b hwaiting).1.own _).mpr
        ⟨claim, List.mem_append_left _ hgranted, rfl⟩
  · exact ((h.blocked step b hb).1.own _).mpr ⟨claim, List.mem_append_right _ hacquired, rfl⟩

/-- Along a chain of waiting steps, the claims that are waited for get larger. -/
theorem Scheduler.Ok.key_lt_of_chain {s : Scheduler} (h : s.Ok) {a b : StepId}
    (hchain : Relation.TransGen s.WaitsFor a b) : ∀ v w, s.waiting a = some v →
      s.waiting b = some w → v.claim.key < w.claim.key := by
  have hedge : ∀ a b, s.WaitsFor a b → ∀ v w, s.waiting a = some v → s.waiting b = some w →
      v.claim.key < w.claim.key := by
    rintro a b ⟨v, hv, hheld⟩ v' w hv' hw
    rw [← Option.some.inj (hv.symm.trans hv')]
    obtain ⟨hview, hacquired⟩ := h.blocked b w hw
    obtain ⟨c, hc, heq⟩ := (hview.own _).mp hheld
    rw [← heq]
    rcases List.mem_append.mp hc with hc | hc
    · exact hview.behind c hc w.claim (List.mem_append_right _ List.mem_cons_self)
    · exact hacquired c hc
  induction hchain with
  | single hab => exact hedge _ _ hab
  | tail _ hbc ih =>
    intro v w hv hw
    obtain ⟨u, hu, hheld⟩ := hbc
    exact lt_trans (ih v u hv hu) (hedge _ _ ⟨u, hu, hheld⟩ u w hu hw)

theorem Scheduler.Ok.safe {s : Scheduler} (h : s.Ok) : s.Safe where
  exclusive := by
    intro a b c d hc hd hconflict
    have hkey := key_eq_of_conflictsWith hconflict
    have ha := h.holder hc
    rw [hkey, h.holder hd] at ha
    exact (Option.some.inj ha).symm
  acyclic := by
    intro a hcycle
    obtain ⟨c, ⟨v, hv, -⟩, -⟩ := Relation.TransGen.head'_iff.mp hcycle
    exact lt_irrefl _ (h.key_lt_of_chain hcycle v v hv hv)
  timeout := by
    intro step claims htimeout c hc
    have hfree := (h.timeout step claims htimeout).2 c hc
    exact ⟨hfree, fun hholds => hfree (h.holder hholds)⟩

/-- In every interleaving of steps that ask only for claims behind those that they still have, no
two steps hold conflicting claims, no steps wait in a circle, and an acquire that times out leaves
none of its claims with its step. -/
theorem claims_safe {moves : List SchedulerMove} {s : Scheduler}
    (hbehind : scheduler.Along (fun s move _ => s.AsksBehind move) .start moves)
    (hs : scheduler.run .start moves = some s) : s.Safe :=
  (System.run_invariant_along (I := Scheduler.Ok)
    (fun _ _ _ hok ht hmove => scheduler_step_ok hok ht hmove) start_ok hbehind hs).safe

def writeFile (id : String) : ResourceClaim := ⟨.file, id, .write⟩

/-- Two steps that each take one file and then ask for the other's. -/
def crossedSteps : List SchedulerMove :=
  [.acquire "s1" [writeFile "b"] false, .acquire "s2" [writeFile "a"] false,
    .acquire "s1" [writeFile "a"] false, .acquire "s2" [writeFile "b"] false]

theorem nested_acquires_deadlock : ¬ ∀ moves s, scheduler.run .start moves = some s → s.Safe := by
  intro h
  have hedges : (scheduler.run .start crossedSteps).map (fun s =>
      ((s.waiting "s1").bind fun w => s.holders w.claim.key,
        (s.waiting "s2").bind fun w => s.holders w.claim.key)) = some (some "s2", some "s1") := by
    decide +kernel
  obtain ⟨s, hs, hpair⟩ := Option.map_eq_some_iff.mp hedges
  obtain ⟨h1, h2⟩ := Prod.mk.inj hpair
  have hfirst : s.WaitsFor "s1" "s2" := Option.bind_eq_some_iff.mp h1
  have hsecond : s.WaitsFor "s2" "s1" := Option.bind_eq_some_iff.mp h2
  exact (h crossedSteps s hs).acyclic "s1" (.tail (.single hfirst) hsecond)

/-- A step that asks has nothing. -/
def Scheduler.asksFirst (s : Scheduler) : SchedulerMove → Bool
  | .acquire step _ _ => s.granted step = []
  | .wake _ _ => true
  | .release _ _ => true

/-- One step waits for another, is woken when that releases, and gets its claim; a third times out. -/
def oneWaits : List SchedulerMove :=
  [.acquire "s1" [writeFile "b", writeFile "a"] false, .acquire "s2" [writeFile "b"] false,
    .release "s1" [writeFile "b", writeFile "a"], .wake "s2" false,
    .acquire "s3" [writeFile "c", writeFile "b", writeFile "a"] true]

theorem claims_safe_oneWaits : ∃ s, scheduler.run .start oneWaits = some s ∧
    s.holders (writeFile "b").key = some "s2" ∧ s.holders (writeFile "a").key = none ∧ s.Safe := by
  have hends : (scheduler.run .start oneWaits).map (fun s =>
      (s.holders (writeFile "b").key, s.holders (writeFile "a").key)) = some (some "s2", none) := by
    decide +kernel
  obtain ⟨s, hs, hpair⟩ := Option.map_eq_some_iff.mp hends
  obtain ⟨hb, ha⟩ := Prod.mk.inj hpair
  have hbehind : scheduler.check Scheduler.asksFirst .start oneWaits = true := by decide +kernel
  refine ⟨s, hs, hb, ha, claims_safe (System.along_mono ?_ (System.along_of_check hbehind)) hs⟩
  intro s move t _ hmove
  cases move with
  | acquire step claims expired =>
    have hnone : s.granted step = [] := of_decide_eq_true hmove
    intro g hg
    rw [hnone] at hg
    cases hg
  | wake step expired => trivial
  | release step claims => trivial

end Recertia.Claims
