import Recertia.Lib.Fallible
import Recertia.Node.Attempt

/-! From a solved attempt or a dead end to the terminal outcome: `distill`, `review`, `store`,
`record_dead_end`, `reject_draft` and `finalize`. -/
namespace Recertia.Graph

open FileTree (Tree)

/-- A verdict that suppresses authoring. -/
def suppressed (parameterisable : Bool) : ReusabilityVerdict :=
  { verdict := .oneOff
    parameterisable
    contextFree := true
    checkable := true
    notDuplicate := true
    bounded := true }

def oneOff (s : RunState) (verdict : ReusabilityVerdict) (t : Tree) : NodeOutcome :=
  { state := { s with reusability := some verdict }, route := some .oneOff, workdir := t }

/-- The eval firewall. -/
def evalFirewall (s : RunState) (t : Tree) : Option NodeOutcome :=
  if s.task.isEvalFixture then some (oneOff { s with draft := none } (suppressed false) t) else none

/-- Control and shadow arms measure without learning. -/
def armMustNotLearn (s : RunState) (t : Tree) : Option NodeOutcome :=
  if s.arm = .control ∨ s.arm = .shadow then some (oneOff s (suppressed false) t) else none

/-- Applying an existing skill is evidence, not a new library entry. -/
def existingSkillIsEvidence (s : RunState) (t : Tree) : Option NodeOutcome :=
  if (s.strategy = some .apply ∨ s.strategy = some .adapt) ∧ s.chosen.isSome then
    some (oneOff s (suppressed true) t)
  else none

/-- Whether one more version write would exceed the run cap. -/
def versionWriteExhausted (s : RunState) : Bool :=
  budgetExcess s.budget.toBudgetFields s.spent s.reserved { versionsWritten := 1 } ==
    some .versionsWritten

def versionWriteBudget (s : RunState) (t : Tree) : Option NodeOutcome :=
  if versionWriteExhausted s then some (oneOff { s with draft := none } (suppressed false) t)
  else none

/-- The five gates. -/
def assessReusability (nearDuplicate : Option (String × ℕ))
    (parameterisable contextFree checkable bounded : Bool) : ReusabilityVerdict :=
  let gates := parameterisable && contextFree && checkable && bounded
  { verdict := if nearDuplicate.isSome && gates then .duplicate
      else if gates && nearDuplicate.isNone then .reusable
      else .oneOff
    parameterisable
    contextFree
    checkable
    notDuplicate := nearDuplicate.isNone
    bounded }

def trueNoopVerdict : ReusabilityVerdict := { suppressed false with checkable := false }

/-- A near-duplicate is rewritten as the next version and still goes through review. -/
def distillSuccess (ctx : NodeContext) : Except NodeError (Option Draft × ReusabilityVerdict) := do
  match ← ctx.authored with
  | .noReplayableSteps => return (none, trueNoopVerdict)
  | .version draft parameterisable contextFree checkable bounded =>
    let assessed :=
      assessReusability ctx.nearDuplicate parameterisable contextFree checkable bounded
    let verdict := if assessed.verdict = .duplicate ∧ ctx.nearDuplicate.isSome then
        { assessed with verdict := .reusable, notDuplicate := true }
      else assessed
    return (if verdict.verdict = .reusable then some draft else none, verdict)

/-- The gates on a draft, in order: applicability, the guide firewall, the configured store and
reviewer. -/
def gateDraft (ctx : NodeContext) (s : RunState) (authored : Option Draft × ReusabilityVerdict) :
    Option Draft × ReusabilityVerdict :=
  let applicable := if authored.1.isSome && !ctx.applicable then (none, suppressed false)
    else authored
  let clean := if applicable.1.isSome && s.executionGuide.isSome && ctx.guideLeak then
      (none, suppressed false)
    else applicable
  if clean.2.verdict = .reusable ∧ (ctx.store = false ∨ ctx.reviewer = false) then
    (if ctx.store then clean.1 else none, { clean.2 with verdict := .oneOff })
  else clean

/-- A reusable verdict without a draft is degraded. -/
def recordVerdict (s : RunState) (authored : Option Draft × ReusabilityVerdict) (t : Tree) :
    NodeOutcome :=
  if authored.2.verdict = .reusable ∧ authored.1.isSome then
    { state := { s with draft := authored.1, reusability := some authored.2 }
      route := some .reusable
      workdir := t }
  else
    let verdict := if authored.2.verdict = .reusable then { authored.2 with verdict := .oneOff }
      else authored.2
    oneOff { s with draft := authored.1 } verdict t

def authorOrReject (ctx : NodeContext) (s : RunState) (t : Tree) :
    Except NodeError NodeOutcome := do
  let authored ← distillSuccess ctx
  return recordVerdict s (gateDraft ctx s authored) t

def distill (ctx : NodeContext) (s : RunState) (t : Tree) : Except NodeError NodeOutcome :=
  match (evalFirewall s t).or (armMustNotLearn s t) with
  | some blocked => .ok blocked
  | none =>
    match (existingSkillIsEvidence s t).or (versionWriteBudget s t) with
    | some blocked => .ok blocked
    | none => authorOrReject ctx s t

def review (ctx : NodeContext) (s : RunState) (t : Tree) : NodeOutcome :=
  { state := s
    route := some (
      if s.draft.isSome && ctx.reviewer && ctx.approves && !versionWriteExhausted s then .approved
      else .rejected)
    workdir := t }

def store (ctx : NodeContext) (s : RunState) (t : Tree) : Except NodeError NodeOutcome :=
  if s.draft.isNone then .error (.valueError "store called without a draft")
  else if versionWriteExhausted s then
    .error (.valueError "store called with versions_written budget exhausted")
  else if !ctx.hygieneClean then .error (.valueError "hygiene scan failed")
  else if !ctx.store then .error (.valueError "store node requires SkillStore on NodeContext")
  else .ok { state := chargeVersionWrite s, route := some .always, workdir := t }

def recordDeadEnd (s : RunState) (t : Tree) : NodeOutcome :=
  { state := s, route := some .always, workdir := t }

def rejectDraft (s : RunState) (t : Tree) : NodeOutcome :=
  { state := s, route := some .always, workdir := t }

def terminalByPredecessor : Node → Terminal
  | .plan => .abstained
  | .distill => .solved
  | .store => .solved
  | .recordDeadEnd => .unsolved
  | .rejectDraft => .rejected
  | _ => .error

/-- The terminal follows from the node that routed here; without one it is an error. -/
def finalize (s : RunState) (t : Tree) : NodeOutcome :=
  { state := { s with terminal := some (match s.routeLog.getLast? with
      | none => .error
      | some entry => terminalByPredecessor entry.node) }
    route := none
    workdir := t }

theorem distillSuccess_verdict {ctx : NodeContext} {authored : Option Draft × ReusabilityVerdict}
    (h : distillSuccess ctx = .ok authored) : authored.2.verdict ≠ .duplicate := by
  obtain ⟨a, -, h⟩ := Fallible.bind_eq_ok.mp h
  cases a with
  | noReplayableSteps =>
    cases h
    exact fun hd => by cases hd
  | version draft parameterisable contextFree checkable bounded =>
    cases h
    dsimp only
    split
    · exact fun hd => by cases hd
    · rename_i hnot
      intro hd
      -- Only a near-duplicate is assessed as one, and then the verdict is rewritten.
      refine hnot ⟨hd, ?_⟩
      unfold assessReusability at hd
      dsimp only at hd
      by_cases hn : ctx.nearDuplicate.isSome
      · exact hn
      · rw [if_neg (by simp [hn])] at hd
        split at hd <;> cases hd

theorem gateDraft_verdict {ctx : NodeContext} {s : RunState}
    {authored : Option Draft × ReusabilityVerdict} (h : authored.2.verdict ≠ .duplicate) :
    (gateDraft ctx s authored).2.verdict ≠ .duplicate := by
  unfold gateDraft
  dsimp only
  repeat' split
  all_goals first | exact h | exact fun hd => by cases hd

/-- The spec of `distill`: whatever the gates find, the route is the one of the verdict. -/
theorem distill_spec {ctx : NodeContext} {s : RunState} {t : Tree} {o : NodeOutcome}
    (h : distill ctx s t = .ok o) :
    ∃ draft verdict, o.state = { s with draft, reusability := some verdict } ∧
      ((o.route = some .reusable ∧ verdict.verdict = .reusable ∧ draft.isSome = true) ∨
        (o.route = some .oneOff ∧ verdict.verdict = .oneOff)) := by
  have honeOff (draft : Option Draft) (verdict : ReusabilityVerdict)
      (hv : verdict.verdict = .oneOff) (o : NodeOutcome)
      (ho : oneOff { s with draft } verdict t = o) :
      ∃ draft verdict, o.state = { s with draft, reusability := some verdict } ∧
        ((o.route = some .reusable ∧ verdict.verdict = .reusable ∧ draft.isSome = true) ∨
          (o.route = some .oneOff ∧ verdict.verdict = .oneOff)) := by
    subst ho
    exact ⟨draft, verdict, rfl, Or.inr ⟨rfl, hv⟩⟩
  unfold distill at h
  split at h
  · rename_i blocked hblocked
    cases h
    rcases Option.or_eq_some_iff.mp hblocked with hb | ⟨-, hb⟩
    · unfold evalFirewall at hb
      split at hb
      · exact honeOff none _ rfl _ (Option.some.inj hb)
      · cases hb
    · unfold armMustNotLearn at hb
      split at hb
      · exact honeOff s.draft _ rfl _ (Option.some.inj hb)
      · cases hb
  · split at h
    · rename_i blocked hblocked
      cases h
      rcases Option.or_eq_some_iff.mp hblocked with hb | ⟨-, hb⟩
      · unfold existingSkillIsEvidence at hb
        split at hb
        · exact honeOff s.draft _ rfl _ (Option.some.inj hb)
        · cases hb
      · unfold versionWriteBudget at hb
        split at hb
        · exact honeOff none _ rfl _ (Option.some.inj hb)
        · cases hb
    · obtain ⟨authored, hauthored, h⟩ := Fallible.bind_eq_ok.mp h
      cases h
      have hv : (gateDraft ctx s authored).2.verdict ≠ .duplicate :=
        gateDraft_verdict (distillSuccess_verdict hauthored)
      unfold recordVerdict
      split
      · rename_i hr
        exact ⟨_, _, rfl, Or.inl ⟨rfl, hr.1, hr.2⟩⟩
      · dsimp only
        refine honeOff (gateDraft ctx s authored).1 _ ?_ _ rfl
        split
        · rfl
        · rename_i hnr
          cases hverdict : (gateDraft ctx s authored).2.verdict with
          | reusable => exact (hnr hverdict).elim
          | oneOff => rfl
          | duplicate => exact (hv hverdict).elim

theorem store_spec {ctx : NodeContext} {s : RunState} {t : Tree} {o : NodeOutcome}
    (h : store ctx s t = .ok o) :
    o = { state := chargeVersionWrite s, route := some .always, workdir := t } := by
  unfold store at h
  repeat' split at h
  all_goals cases h
  rfl

end Recertia.Graph
