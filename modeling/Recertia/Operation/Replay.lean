import Recertia.Lib.PyJson
import Recertia.Operation.SingleExecutor

/-! `run_once` across crashes. A result is a Python value that goes through `json.dumps`
into the row and through `json.loads` out of it; a process may die between any two steps
and take its ledger objects with it. -/
namespace Recertia.Operation
open Transition Json

/-- `_is_pending` -/
def isPending : PyValue → Bool
  | .dict [(k, v)] => k = "__pending__" && v.eqTrue
  | _ => false

/-- What `run_once` makes of `json.loads(result_json)`. -/
def cellOf (v : PyValue) : Cell PyValue := if isPending v then .pending else .result v

/-- A process dies: its ledger objects lose their claims and its calls end where they are. -/
def crash (w : World PyValue) (ledgers : List LedgerId) : World PyValue :=
  { w with
    liveClaims := fun k => if k ∈ ledgers then none else w.liveClaims k
    call := fun c =>
      if (w.call c).ledger ∈ ledgers ∧ (w.call c).phase.isRunning then
        { w.call c with phase := .gone }
      else w.call c }

/-- `publish`, with the text of the result in the row. -/
def publishText (w : World PyValue) (c : CallId) (v stored : PyValue) : World PyValue :=
  { publish w c v with row := w.row.map fun _ => cellOf stored }

inductive Event
  | enter (c : CallId)
  | poll (c : CallId) (fenceOk : Bool)
  | wake (c : CallId)
  | fnReturn (c : CallId) (v : PyValue)
  | fnRaise (c : CallId)
  | publish (c : CallId) (fenceOk : Bool)
  | cleanUp (c : CallId)
  | interrupt (c : CallId)
  | threadDies (t : ThreadId)
  | tick (seconds : Nat)
  | crash (ledgers : List LedgerId)
  deriving Repr

def resumeStep (w : World PyValue) : Event → Option (World PyValue)
  | .enter c => step w (.enter c)
  | .poll c fenceOk => step w (.poll c fenceOk)
  | .wake c => step w (.wake c)
  | .fnReturn c v => step w (.fnReturn c (cellOf v))
  | .fnRaise c => step w (.fnRaise c)
  | .publish c fenceOk =>
    match (w.call c).phase with
    | .publishing v =>
      match v.reload with
      | some stored => some (if fenceOk then publishText w c v stored else setPhase w c .cleaning)
      -- `json.dumps` raises inside the transaction
      | none => some (setPhase w c .cleaning)
    | _ => none
  | .cleanUp c => step w (.cleanUp c)
  | .interrupt c => step w (.interrupt c)
  | .threadDies t => step w (.threadDies t)
  | .tick seconds => step w (.tick seconds)
  | .crash ledgers => some (crash w ledgers)

def resumable : System (World PyValue) Event := ⟨resumeStep⟩

/-- A call is entered only when no call is running in any process. -/
def NonOverlapping (w : World PyValue) (e : Event) (_ : World PyValue) : Prop :=
  ∀ c, e = .enter c → ∀ d, (w.call d).phase.isRunning = false

theorem isPending_reload {v w : PyValue} (h : v.reload = some w) : isPending w = isPending v := by
  match v with
  | .null | .bool _ | .int _ | .float _ | .str _ =>
    have hw : w = _ := (Option.some.inj (by simpa only [PyValue.reload] using h)).symm
    rw [hw]
  | .list vs | .tuple vs =>
    obtain ⟨ws, -, rfl⟩ := Option.map_eq_some_iff.mp (by simpa only [PyValue.reload] using h)
    rfl
  | .other => simp [PyValue.reload] at h
  | .dict items =>
    obtain ⟨out, hout, rfl⟩ := Option.map_eq_some_iff.mp (by simpa only [PyValue.reload] using h)
    have hlength : out.length = items.length := length_reloadDict hout
    cases items with
    | nil =>
      have hout' : out = [] := List.length_eq_zero_iff.mp hlength
      rw [hout']
    | cons item items =>
      obtain ⟨k, v⟩ := item
      obtain ⟨u, us, hu, hus, rfl⟩ := reloadDict_cons hout
      cases items with
      | nil =>
        have hus' : us = [] := List.length_eq_zero_iff.mp (length_reloadDict hus)
        rw [hus']
        simp only [isPending, PyValue.eqTrue_reload hu]
      | cons item' items =>
        obtain ⟨k', v'⟩ := item'
        obtain ⟨u', us', -, -, rfl⟩ := reloadDict_cons hus
        rfl

theorem cellOf_reload {v stored : PyValue} (hv : isPending v = false)
    (h : v.reload = some stored) : cellOf stored = .result stored := by
  have hstored : isPending stored = false := (isPending_reload h).trans hv
  simp only [cellOf, hstored, Bool.false_eq_true, if_false]

/-- Call `c` goes to `phase` and the row becomes `row`; no other call changes. -/
structure Moves (w w' : World PyValue) (c : CallId) (phase : Phase PyValue)
    (row : Option (Cell PyValue)) : Prop where
  others : ∀ d, d ≠ c → w'.call d = w.call d
  phase : (w'.call c).phase = phase
  row : w'.row = row

theorem moves_update {w : World PyValue} {c : CallId} {call : Call PyValue}
    {row : Option (Cell PyValue)} {claims : LedgerId → Option LiveClaim} :
    Moves w { w with row := row, liveClaims := claims, call := Function.update w.call c call } c
      call.phase row :=
  ⟨fun d hd => Function.update_of_ne hd _ _, by simp only [Function.update_self], rfl⟩

theorem moves_setPhase (w : World PyValue) (c : CallId) (p : Phase PyValue) :
    Moves w (setPhase w c p) c p w.row := moves_update

/-- What an event does to the row and to the calls. -/
def Effect (w w' : World PyValue) : Event → Prop
  | .enter c => (w.call c).phase = .called ∧ Moves w w' c .looping w.row
  | .poll c fenceOk => (w.call c).phase = .looping ∧
      ((fenceOk = false ∧ Moves w w' c .raised w.row) ∨
        (fenceOk = true ∧ ∃ r, w.row = some (.result r) ∧ Moves w w' c (.stored r) w.row) ∨
        (fenceOk = true ∧ (∀ r, w.row ≠ some (.result r)) ∧
          ∃ p, (p = .executing ∨ p = .unclaimed) ∧ Moves w w' c p (some .pending)))
  | .wake c => (w.call c).phase = .unclaimed ∧ Moves w w' c .looping w.row
  | .fnReturn c v => (w.call c).phase = .executing ∧
      ((isPending v = true ∧ Moves w w' c .cleaning w.row) ∨
        (isPending v = false ∧ Moves w w' c (.publishing v) w.row))
  | .fnRaise c => (w.call c).phase = .executing ∧ Moves w w' c .cleaning w.row
  | .publish c fenceOk => ∃ v, (w.call c).phase = .publishing v ∧
      (Moves w w' c .cleaning w.row ∨
        (fenceOk = true ∧ ∃ stored, v.reload = some stored ∧
          Moves w w' c (.returned v) (w.row.map fun _ => cellOf stored)))
  | .cleanUp c => (w.call c).phase = .cleaning ∧
      ∃ row, (row = none ∨ (w.row ≠ some .pending ∧ row = w.row)) ∧ Moves w w' c .raised row
  | .interrupt c => (w.call c).phase.isRunning = true ∧ Moves w w' c .gone w.row
  | .threadDies _ | .tick _ | .crash _ =>
      w'.row = w.row ∧ ∀ d, w'.call d = w.call d ∨ (w'.call d).phase = .gone

theorem effect_poll {w : World PyValue} {c : CallId} (hphase : (w.call c).phase = .looping) :
    Effect w (poll w c) (.poll c true) := by
  refine ⟨hphase, Or.inr ?_⟩
  unfold poll
  dsimp only
  split
  · rename_i r hrow
    exact Or.inl ⟨rfl, r, hrow, moves_setPhase w c _⟩
  · rename_i hrow
    have hnone : ∀ r, w.row ≠ some (.result r) := by
      intro r hr
      rw [hrow] at hr
      cases hr
    refine Or.inr ⟨rfl, hnone, ?_⟩
    split
    · exact ⟨.unclaimed, Or.inr rfl, hrow ▸ moves_setPhase w c _⟩
    · exact ⟨.executing, Or.inl rfl, hrow ▸ moves_update⟩
  · rename_i hrow
    have hnone : ∀ r, w.row ≠ some (.result r) := by
      intro r hr
      rw [hrow] at hr
      cases hr
    exact Or.inr ⟨rfl, hnone, .executing, Or.inl rfl, moves_update⟩

theorem effect_cleanUp {w : World PyValue} {c : CallId} (hphase : (w.call c).phase = .cleaning) :
    Effect w (cleanUp w c) (.cleanUp c) := by
  refine ⟨hphase, ?_⟩
  unfold cleanUp
  dsimp only
  split
  · exact ⟨none, Or.inl rfl, moves_update⟩
  · rename_i row hrow
    exact ⟨w.row, Or.inr ⟨hrow, rfl⟩, moves_update⟩

/-- Every event does what `Effect` says and nothing else. -/
theorem effect_of_step {w w' : World PyValue} {e : Event} (h : resumeStep w e = some w') :
    Effect w w' e := by
  cases e with
  | enter c =>
    simp only [resumeStep, step] at h
    split at h
    · rename_i hphase
      split at h
      · cases h
        exact ⟨hphase, moves_update⟩
      · cases h
    · cases h
  | poll c fenceOk =>
    simp only [resumeStep, step] at h
    split at h
    · rename_i hphase
      cases h
      cases fenceOk with
      | false => exact ⟨hphase, Or.inl ⟨rfl, moves_setPhase w c _⟩⟩
      | true => exact effect_poll hphase
    · cases h
  | wake c =>
    simp only [resumeStep, step] at h
    split at h
    · rename_i hphase
      cases h
      refine ⟨hphase, ?_⟩
      unfold wake
      dsimp only
      split
      · exact moves_update
      · exact moves_setPhase w c _
    · cases h
  | fnReturn c v =>
    simp only [resumeStep, step] at h
    split at h
    · rename_i hphase
      cases h
      refine ⟨hphase, ?_⟩
      by_cases hv : isPending v = true
      · simp only [cellOf, hv, if_true]
        exact Or.inl ⟨trivial, moves_setPhase w c _⟩
      · simp only [cellOf, hv]
        exact Or.inr ⟨by simp, moves_setPhase w c _⟩
    · cases h
  | fnRaise c =>
    simp only [resumeStep, step] at h
    split at h
    · rename_i hphase
      cases h
      exact ⟨hphase, moves_setPhase w c _⟩
    · cases h
  | publish c fenceOk =>
    simp only [resumeStep] at h
    split at h
    · rename_i v hphase
      refine ⟨v, hphase, ?_⟩
      split at h
      · rename_i stored hstored
        cases h
        cases fenceOk with
        | false => exact Or.inl (moves_setPhase w c _)
        | true => exact Or.inr ⟨rfl, stored, hstored, moves_update⟩
      · cases h
        exact Or.inl (moves_setPhase w c _)
    · cases h
  | cleanUp c =>
    simp only [resumeStep, step] at h
    split at h
    · rename_i hphase
      cases h
      exact effect_cleanUp hphase
    · cases h
  | interrupt c =>
    simp only [resumeStep, step] at h
    split at h <;> first | cases h
    all_goals
      rename_i hphase
      exact ⟨by rw [hphase]; rfl, moves_setPhase w c _⟩
  | threadDies t =>
    cases h
    refine ⟨rfl, fun d => ?_⟩
    simp only [threadDies]
    split
    · exact Or.inr rfl
    · exact Or.inl rfl
  | tick seconds =>
    cases h
    exact ⟨rfl, fun d => Or.inl rfl⟩
  | crash ledgers =>
    cases h
    refine ⟨rfl, fun d => ?_⟩
    simp only [crash]
    split
    · exact Or.inr rfl
    · exact Or.inl rfl

/-- What non-overlapping calls keep: one of them runs at a time, the row is pending while it
is between its claim and its end, and a value on its way to the row is no sentinel. -/
structure Sequential (w : World PyValue) : Prop where
  single : ∀ c d, (w.call c).phase.isRunning = true → (w.call d).phase.isRunning = true → c = d
  pending : ∀ c, (w.call c).phase.inFlight = true → w.row = some .pending
  proper : ∀ c v, (w.call c).phase = .publishing v → isPending v = false

theorem sequential_init (cfg : Config PyValue) : Sequential cfg.world where
  single _ _ h := by cases h
  pending _ h := by cases h
  proper _ _ h := by cases h

theorem sequential_moves {w w' : World PyValue} {c : CallId} {p : Phase PyValue}
    {row : Option (Cell PyValue)} (hidle : ∀ d, d ≠ c → (w.call d).phase.isRunning = false)
    (hm : Moves w w' c p row) (hrow : p.inFlight = true → row = some .pending)
    (hproper : ∀ v, p = .publishing v → isPending v = false) : Sequential w' := by
  have hother : ∀ d, (w'.call d).phase.isRunning = true → d = c := by
    intro d hd
    by_contra hdc
    rw [hm.others d hdc, hidle d hdc] at hd
    cases hd
  refine ⟨?_, ?_, ?_⟩
  · intro d e hd he
    rw [hother d hd, hother e he]
  · intro d hd
    have hdc : d = c := hother d (Phase.isRunning_of_inFlight hd)
    rw [hdc, hm.phase] at hd
    rw [hm.row, hrow hd]
  · intro d v hd
    have hdc : d = c := hother d (by rw [hd]; rfl)
    rw [hdc, hm.phase] at hd
    exact hproper v hd

/-- Calls that only end leave the invariant. -/
theorem sequential_ended {w w' : World PyValue} (hi : Sequential w) (hrow : w'.row = w.row)
    (hcall : ∀ d, w'.call d = w.call d ∨ (w'.call d).phase = .gone) : Sequential w' := by
  have hkept : ∀ d, (w'.call d).phase.isRunning = true → w'.call d = w.call d := by
    intro d hd
    rcases hcall d with h | h
    · exact h
    · rw [h] at hd
      cases hd
  refine ⟨?_, ?_, ?_⟩
  · intro c d hc hd
    rw [hkept c hc] at hc
    rw [hkept d hd] at hd
    exact hi.single c d hc hd
  · intro c hc
    rw [hkept c (Phase.isRunning_of_inFlight hc)] at hc
    rw [hrow, hi.pending c hc]
  · intro c v hc
    have hrun : (w'.call c).phase.isRunning = true := by rw [hc]; rfl
    rw [hkept c hrun] at hc
    exact hi.proper c v hc

/-- While call `c` runs, no other call does. -/
theorem idle_of_running {w : World PyValue} {c : CallId} (hi : Sequential w)
    (hc : (w.call c).phase.isRunning = true) :
    ∀ d, d ≠ c → (w.call d).phase.isRunning = false := by
  intro d hdc
  by_contra hd
  exact hdc (hi.single d c (by simpa using hd) hc)

theorem sequential_step {w w' : World PyValue} {e : Event} (hi : Sequential w)
    (h : resumable.step w e = some w') (halone : NonOverlapping w e w') : Sequential w' := by
  have heffect : Effect w w' e := effect_of_step h
  cases e with
  | enter c =>
    obtain ⟨-, hm⟩ := heffect
    have hidle : ∀ d, d ≠ c → (w.call d).phase.isRunning = false := fun d _ => halone c rfl d
    exact sequential_moves hidle hm (fun hp => by cases hp) fun _ hp => by cases hp
  | poll c fenceOk =>
    obtain ⟨hphase, hmove⟩ := heffect
    have hidle := idle_of_running hi (show (w.call c).phase.isRunning = true by rw [hphase]; rfl)
    rcases hmove with ⟨-, hm⟩ | ⟨-, r, -, hm⟩ | ⟨-, -, p, hp, hm⟩
    · exact sequential_moves hidle hm (fun hp => by cases hp) fun _ hp => by cases hp
    · exact sequential_moves hidle hm (fun hp => by cases hp) fun _ hp => by cases hp
    · refine sequential_moves hidle hm (fun _ => rfl) fun v hv => ?_
      rcases hp with rfl | rfl <;> cases hv
  | wake c =>
    obtain ⟨hphase, hm⟩ := heffect
    have hidle := idle_of_running hi (show (w.call c).phase.isRunning = true by rw [hphase]; rfl)
    exact sequential_moves hidle hm (fun hp => by cases hp) fun _ hp => by cases hp
  | fnReturn c v =>
    obtain ⟨hphase, hmove⟩ := heffect
    have hrow : w.row = some .pending := hi.pending c (by rw [hphase]; rfl)
    have hidle := idle_of_running hi (show (w.call c).phase.isRunning = true by rw [hphase]; rfl)
    rcases hmove with ⟨-, hm⟩ | ⟨hv, hm⟩
    · exact sequential_moves hidle hm (fun _ => hrow) fun _ hp => by cases hp
    · refine sequential_moves hidle hm (fun _ => hrow) fun u hu => ?_
      cases hu
      exact hv
  | fnRaise c =>
    obtain ⟨hphase, hm⟩ := heffect
    have hrow : w.row = some .pending := hi.pending c (by rw [hphase]; rfl)
    have hidle := idle_of_running hi (show (w.call c).phase.isRunning = true by rw [hphase]; rfl)
    exact sequential_moves hidle hm (fun _ => hrow) fun _ hp => by cases hp
  | publish c fenceOk =>
    obtain ⟨v, hphase, hmove⟩ := heffect
    have hrow : w.row = some .pending := hi.pending c (by rw [hphase]; rfl)
    have hidle := idle_of_running hi (show (w.call c).phase.isRunning = true by rw [hphase]; rfl)
    rcases hmove with hm | ⟨-, stored, -, hm⟩
    · exact sequential_moves hidle hm (fun _ => hrow) fun _ hp => by cases hp
    · exact sequential_moves hidle hm (fun hp => by cases hp) fun _ hp => by cases hp
  | cleanUp c =>
    obtain ⟨hphase, row, -, hm⟩ := heffect
    have hidle := idle_of_running hi (show (w.call c).phase.isRunning = true by rw [hphase]; rfl)
    exact sequential_moves hidle hm (fun hp => by cases hp) fun _ hp => by cases hp
  | interrupt c =>
    obtain ⟨hrun, hm⟩ := heffect
    have hidle := idle_of_running hi hrun
    exact sequential_moves hidle hm (fun hp => by cases hp) fun _ hp => by cases hp
  | threadDies t => exact sequential_ended hi heffect.1 heffect.2
  | tick seconds => exact sequential_ended hi heffect.1 heffect.2
  | crash ledgers => exact sequential_ended hi heffect.1 heffect.2

theorem no_inFlight_of_result {w : World PyValue} {r : PyValue} (hi : Sequential w)
    (hrow : w.row = some (.result r)) (c : CallId) : (w.call c).phase.inFlight = false := by
  by_contra hc
  have hpending : w.row = some .pending := hi.pending c (by simpa using hc)
  rw [hrow] at hpending
  cases hpending

/-- How a call can end up on a key whose row holds `r`: refused by the fence in one of
`events`, cut off, or with the stored value. -/
def Served (r : PyValue) (events : List Event) (d : CallId) (p : Phase PyValue) : Prop :=
  p = .looping ∨ p = .stored r ∨ p = .gone ∨ (p = .raised ∧ Event.poll d false ∈ events)

theorem served_mono {r : PyValue} {es fs : List Event} {d : CallId} {p : Phase PyValue}
    (hsub : es ⊆ fs) (h : Served r es d p) : Served r fs d p := by
  rcases h with h | h | h | ⟨h, hmem⟩
  · exact Or.inl h
  · exact Or.inr (Or.inl h)
  · exact Or.inr (Or.inr (Or.inl h))
  · exact Or.inr (Or.inr (Or.inr ⟨h, hsub hmem⟩))

theorem served_moves {w w' : World PyValue} {c : CallId} {p : Phase PyValue} {r : PyValue}
    {row : Option (Cell PyValue)} {es : List Event} (hm : Moves w w' c p row)
    (hp : Served r es c p) (d : CallId) :
    (w'.call d).phase = (w.call d).phase ∨ Served r es d (w'.call d).phase := by
  by_cases hd : d = c
  · rw [hd, hm.phase]
    exact Or.inr hp
  · rw [hm.others d hd]
    exact Or.inl rfl

/-- A row that holds a result keeps it, and nothing executes. -/
theorem recorded_step {w w' : World PyValue} {e : Event} {r : PyValue} (hi : Sequential w)
    (hrow : w.row = some (.result r)) (h : resumable.step w e = some w') :
    w'.row = some (.result r) ∧
      ∀ d, (w'.call d).phase = (w.call d).phase ∨ Served r [e] d (w'.call d).phase := by
  have heffect : Effect w w' e := effect_of_step h
  have hnone := no_inFlight_of_result hi hrow
  have hbusy : ∀ {c : CallId} {p : Phase PyValue}, (w.call c).phase = p → p.inFlight = true →
      False := by
    intro c p hp hflight
    rw [← hp, hnone c] at hflight
    cases hflight
  cases e with
  | enter c =>
    obtain ⟨-, hm⟩ := heffect
    exact ⟨hm.row.trans hrow, served_moves hm (Or.inl rfl)⟩
  | poll c fenceOk =>
    obtain ⟨-, ⟨hfence, hm⟩ | ⟨-, r', hr', hm⟩ | ⟨-, hne, -⟩⟩ := heffect
    · subst hfence
      refine ⟨hm.row.trans hrow, served_moves hm ?_⟩
      exact Or.inr (Or.inr (Or.inr ⟨rfl, List.mem_singleton.mpr rfl⟩))
    · have hr : r' = r := by
        rw [hrow] at hr'
        cases hr'
        rfl
      exact ⟨hm.row.trans hrow, served_moves hm (Or.inr (Or.inl (hr ▸ rfl)))⟩
    · exact absurd hrow (hne r)
  | wake c =>
    obtain ⟨-, hm⟩ := heffect
    exact ⟨hm.row.trans hrow, served_moves hm (Or.inl rfl)⟩
  | fnReturn c v => exact (hbusy heffect.1 rfl).elim
  | fnRaise c => exact (hbusy heffect.1 rfl).elim
  | publish c fenceOk =>
    obtain ⟨v, hphase, -⟩ := heffect
    exact (hbusy hphase rfl).elim
  | cleanUp c => exact (hbusy heffect.1 rfl).elim
  | interrupt c =>
    obtain ⟨-, hm⟩ := heffect
    exact ⟨hm.row.trans hrow, served_moves hm (Or.inr (Or.inr (Or.inl rfl)))⟩
  | threadDies t =>
    refine ⟨heffect.1.trans hrow, fun d => ?_⟩
    rcases heffect.2 d with hd | hd
    · exact Or.inl (by rw [hd])
    · exact Or.inr (Or.inr (Or.inr (Or.inl hd)))
  | tick seconds =>
    refine ⟨heffect.1.trans hrow, fun d => ?_⟩
    rcases heffect.2 d with hd | hd
    · exact Or.inl (by rw [hd])
    · exact Or.inr (Or.inr (Or.inr (Or.inl hd)))
  | crash ledgers =>
    refine ⟨heffect.1.trans hrow, fun d => ?_⟩
    rcases heffect.2 d with hd | hd
    · exact Or.inl (by rw [hd])
    · exact Or.inr (Or.inr (Or.inr (Or.inl hd)))

/-- From a stored result on, no call runs its function and every call is served from the row. -/
theorem recorded_run {s u : World PyValue} {r : PyValue} {post : List Event} (hi : Sequential s)
    (hrow : s.row = some (.result r)) (halone : resumable.Along NonOverlapping s post)
    (hu : resumable.run s post = some u) :
    u.row = some (.result r) ∧
      resumable.Along (fun _ _ w => ∀ c, (w.call c).phase ≠ .executing) s post ∧
      ∀ d, (u.call d).phase = (s.call d).phase ∨ Served r post d (u.call d).phase := by
  induction post generalizing s with
  | nil =>
    have hsu : s = u := Option.some.inj hu
    subst hsu
    exact ⟨hrow, trivial, fun d => Or.inl rfl⟩
  | cons e post ih =>
    obtain ⟨t, ht, hpost⟩ := System.run_cons.mp hu
    have hit : Sequential t := sequential_step hi ht (halone t ht).1
    obtain ⟨hrowt, hcallt⟩ := recorded_step hi hrow ht
    obtain ⟨hrowu, hquiet, hcallu⟩ := ih hit hrowt (halone t ht).2 hpost
    refine ⟨hrowu, fun t' ht' => ?_, fun d => ?_⟩
    · have htt : t = t' := Option.some.inj (ht.symm.trans ht')
      subst htt
      refine ⟨fun c hc => ?_, hquiet⟩
      have hidle := no_inFlight_of_result hit hrowt c
      rw [hc] at hidle
      cases hidle
    · have htail : post ⊆ e :: post := fun x hx => List.mem_cons_of_mem e hx
      have hhead : [e] ⊆ e :: post := fun x hx => by
        rw [List.mem_singleton.mp hx]
        exact List.mem_cons_self
      rcases hcallu d with hd | hd
      · rw [hd]
        rcases hcallt d with h | h
        · exact Or.inl h
        · exact Or.inr (served_mono hhead h)
      · exact Or.inr (served_mono htail hd)

/-- Until a result is stored there is none, and no call returns one from the row. -/
theorem unrecorded_step {w w' : World PyValue} {e : Event} (hrow : ∀ r, w.row ≠ some (.result r))
    (h : resumable.step w e = some w') (he : ∀ c, e ≠ .publish c true) :
    (∀ r, w'.row ≠ some (.result r)) ∧
      ∀ d r, (w'.call d).phase = .stored r → (w.call d).phase = .stored r := by
  have heffect : Effect w w' e := effect_of_step h
  have hmoves : ∀ {c : CallId} {p : Phase PyValue} {row : Option (Cell PyValue)},
      Moves w w' c p row → (∀ r, row ≠ some (.result r)) → (∀ r, p ≠ .stored r) →
      (∀ r, w'.row ≠ some (.result r)) ∧
        ∀ d r, (w'.call d).phase = .stored r → (w.call d).phase = .stored r := by
    intro c p row hm hnew hp
    refine ⟨fun r => hm.row ▸ hnew r, fun d r hd => ?_⟩
    by_cases hdc : d = c
    · rw [hdc, hm.phase] at hd
      exact absurd hd (hp r)
    · rwa [hm.others d hdc] at hd
  have hended : (w'.row = w.row ∧ ∀ d, w'.call d = w.call d ∨ (w'.call d).phase = .gone) →
      (∀ r, w'.row ≠ some (.result r)) ∧
        ∀ d r, (w'.call d).phase = .stored r → (w.call d).phase = .stored r := by
    rintro ⟨hsame, hcall⟩
    refine ⟨fun r => hsame ▸ hrow r, fun d r hd => ?_⟩
    rcases hcall d with h | h
    · rwa [h] at hd
    · rw [h] at hd
      cases hd
  cases e with
  | enter c => exact hmoves heffect.2 hrow fun _ hp => by cases hp
  | poll c fenceOk =>
    obtain ⟨-, ⟨-, hm⟩ | ⟨-, r, hr, -⟩ | ⟨-, -, p, hp, hm⟩⟩ := heffect
    · exact hmoves hm hrow fun _ hp => by cases hp
    · exact absurd hr (hrow r)
    · refine hmoves hm (fun _ hr => by cases hr) fun r hr => ?_
      rcases hp with rfl | rfl <;> cases hr
  | wake c => exact hmoves heffect.2 hrow fun _ hp => by cases hp
  | fnReturn c v =>
    obtain ⟨-, ⟨-, hm⟩ | ⟨-, hm⟩⟩ := heffect
    · exact hmoves hm hrow fun _ hp => by cases hp
    · exact hmoves hm hrow fun _ hp => by cases hp
  | fnRaise c => exact hmoves heffect.2 hrow fun _ hp => by cases hp
  | publish c fenceOk =>
    obtain ⟨v, -, hm | ⟨hfence, -⟩⟩ := heffect
    · exact hmoves hm hrow fun _ hp => by cases hp
    · exact absurd (hfence ▸ rfl) (he c)
  | cleanUp c =>
    obtain ⟨-, row, hr, hm⟩ := heffect
    refine hmoves hm (fun r hcell => ?_) fun _ hp => by cases hp
    rcases hr with rfl | ⟨-, rfl⟩
    · cases hcell
    · exact hrow r hcell
  | interrupt c => exact hmoves heffect.2 hrow fun _ hp => by cases hp
  | threadDies t => exact hended heffect
  | tick seconds => exact hended heffect
  | crash ledgers => exact hended heffect

theorem unrecorded_run {s u : World PyValue} {post : List Event}
    (hrow : ∀ r, s.row ≠ some (.result r)) (hu : resumable.run s post = some u)
    (hpost : ∀ c, Event.publish c true ∉ post) :
    (∀ r, u.row ≠ some (.result r)) ∧
      ∀ d r, (u.call d).phase = .stored r → (s.call d).phase = .stored r := by
  induction post generalizing s with
  | nil =>
    have hsu : s = u := Option.some.inj hu
    subst hsu
    exact ⟨hrow, fun _ _ h => h⟩
  | cons e post ih =>
    obtain ⟨t, ht, hrest⟩ := System.run_cons.mp hu
    have he : ∀ c, e ≠ .publish c true := by
      intro c hc
      exact hpost c (hc ▸ List.mem_cons_self)
    have htail : ∀ c, Event.publish c true ∉ post :=
      fun c hc => hpost c (List.mem_cons_of_mem e hc)
    obtain ⟨hrowt, hcallt⟩ := unrecorded_step hrow ht he
    obtain ⟨hrowu, hcallu⟩ := ih hrowt hrest htail
    exact ⟨hrowu, fun d r hd => hcallt d r (hcallu d r hd)⟩

/-- Where the values of a state come from: `first` is the row before all `events`. -/
structure History (first : Option (Cell PyValue)) (events : List Event) (w : World PyValue) :
    Prop where
  publishing : ∀ c v, (w.call c).phase = .publishing v → Event.fnReturn c v ∈ events
  result : ∀ r, w.row = some (.result r) → first = some (.result r) ∨
    ∃ c v, Event.fnReturn c v ∈ events ∧ Event.publish c true ∈ events ∧ v.reload = some r
  returned : ∀ c v, (w.call c).phase = .returned v →
    ∃ r, v.reload = some r ∧ w.row = some (.result r)
  stored : ∀ c r, (w.call c).phase = .stored r → w.row = some (.result r)

theorem history_init (cfg : Config PyValue) : History cfg.row [] cfg.world where
  publishing _ _ h := by cases h
  result _ h := Or.inl h
  returned _ _ h := by cases h
  stored _ _ h := by cases h

theorem history_moves {first : Option (Cell PyValue)} {es : List Event} {e : Event}
    {w w' : World PyValue} {c : CallId} {p : Phase PyValue} {row : Option (Cell PyValue)}
    (hh : History first es w) (hm : Moves w w' c p row)
    (hkeep : ∀ r, w.row = some (.result r) → row = some (.result r))
    (hresult : ∀ r, row = some (.result r) → w.row = some (.result r) ∨
      ∃ v, (w.call c).phase = .publishing v ∧ e = .publish c true ∧ v.reload = some r)
    (hpublishing : ∀ v, p = .publishing v → e = .fnReturn c v)
    (hreturned : ∀ v, p = .returned v → ∃ r, v.reload = some r ∧ row = some (.result r))
    (hstored : ∀ r, p = .stored r → row = some (.result r)) :
    History first (es ++ [e]) w' := by
  have hold : ∀ {x : Event}, x ∈ es → x ∈ es ++ [e] := fun hx => List.mem_append_left _ hx
  have hnew : e ∈ es ++ [e] := List.mem_append_right _ List.mem_cons_self
  refine ⟨fun d v hd => ?_, fun r hr => ?_, fun d v hd => ?_, fun d r hd => ?_⟩
  · by_cases hdc : d = c
    · subst hdc
      exact hpublishing v (hm.phase ▸ hd) ▸ hnew
    · rw [hm.others d hdc] at hd
      exact hold (hh.publishing d v hd)
  · rw [hm.row] at hr
    rcases hresult r hr with hr | ⟨v, hv, he, hload⟩
    · rcases hh.result r hr with hfirst | ⟨d, v, hreturn, hpublish, hload⟩
      · exact Or.inl hfirst
      · exact Or.inr ⟨d, v, hold hreturn, hold hpublish, hload⟩
    · exact Or.inr ⟨c, v, hold (hh.publishing c v hv), he ▸ hnew, hload⟩
  · by_cases hdc : d = c
    · subst hdc
      rw [hm.row]
      exact hreturned v (hm.phase ▸ hd)
    · rw [hm.others d hdc] at hd
      obtain ⟨r, hload, hr⟩ := hh.returned d v hd
      exact ⟨r, hload, hm.row.trans (hkeep r hr)⟩
  · by_cases hdc : d = c
    · subst hdc
      exact hm.row.trans (hstored r (hm.phase ▸ hd))
    · rw [hm.others d hdc] at hd
      exact hm.row.trans (hkeep r (hh.stored d r hd))

theorem history_ended {first : Option (Cell PyValue)} {es : List Event} {e : Event}
    {w w' : World PyValue} (hh : History first es w) (hrow : w'.row = w.row)
    (hcall : ∀ d, w'.call d = w.call d ∨ (w'.call d).phase = .gone) :
    History first (es ++ [e]) w' := by
  have hold : ∀ {x : Event}, x ∈ es → x ∈ es ++ [e] := fun hx => List.mem_append_left _ hx
  have hkept : ∀ d, (w'.call d).phase ≠ .gone → w'.call d = w.call d := by
    intro d hd
    exact (hcall d).resolve_right hd
  refine ⟨fun d v hd => ?_, fun r hr => ?_, fun d v hd => ?_, fun d r hd => ?_⟩
  · rw [hkept d (by rw [hd]; simp)] at hd
    exact hold (hh.publishing d v hd)
  · rcases hh.result r (hrow ▸ hr) with hfirst | ⟨c, v, hreturn, hpublish, hload⟩
    · exact Or.inl hfirst
    · exact Or.inr ⟨c, v, hold hreturn, hold hpublish, hload⟩
  · rw [hkept d (by rw [hd]; simp)] at hd
    rw [hrow]
    exact hh.returned d v hd
  · rw [hkept d (by rw [hd]; simp)] at hd
    rw [hrow]
    exact hh.stored d r hd

theorem history_step {first : Option (Cell PyValue)} {es : List Event} {e : Event}
    {w w' : World PyValue} (hi : Sequential w) (hh : History first es w)
    (h : resumable.step w e = some w') : History first (es ++ [e]) w' := by
  have heffect : Effect w w' e := effect_of_step h
  have hsame : ∀ {c : CallId} {p : Phase PyValue}, Moves w w' c p w.row →
      (∀ v, p ≠ .publishing v) → (∀ v, p ≠ .returned v) → (∀ r, p ≠ .stored r) →
      History first (es ++ [e]) w' := by
    intro c p hm hpub hret hst
    exact history_moves hh hm (fun r hr => hr) (fun r hr => Or.inl hr)
      (fun v hv => absurd hv (hpub v)) (fun v hv => absurd hv (hret v))
      fun r hr => absurd hr (hst r)
  cases e with
  | enter c => exact hsame heffect.2 (by simp) (by simp) (by simp)
  | poll c fenceOk =>
    obtain ⟨-, ⟨-, hm⟩ | ⟨-, r, hr, hm⟩ | ⟨-, hne, p, hp, hm⟩⟩ := heffect
    · exact hsame hm (by simp) (by simp) (by simp)
    · refine history_moves hh hm (fun r hr => hr) (fun r hr => Or.inl hr) (by simp) (by simp) ?_
      intro r' hr'
      rw [← Phase.stored.inj hr']
      exact hr
    · have hfresh : (∀ v, p ≠ .publishing v) ∧ (∀ v, p ≠ .returned v) ∧ ∀ r, p ≠ .stored r := by
        rcases hp with rfl | rfl <;> simp
      exact history_moves hh hm (fun r hr => absurd hr (hne r)) (by simp)
        (fun v hv => absurd hv (hfresh.1 v)) (fun v hv => absurd hv (hfresh.2.1 v))
        fun r hr => absurd hr (hfresh.2.2 r)
  | wake c => exact hsame heffect.2 (by simp) (by simp) (by simp)
  | fnReturn c v =>
    obtain ⟨-, ⟨-, hm⟩ | ⟨-, hm⟩⟩ := heffect
    · exact hsame hm (by simp) (by simp) (by simp)
    · refine history_moves hh hm (fun r hr => hr) (fun r hr => Or.inl hr) ?_ (by simp) (by simp)
      intro u hu
      rw [Phase.publishing.inj hu]
  | fnRaise c => exact hsame heffect.2 (by simp) (by simp) (by simp)
  | publish c fenceOk =>
    obtain ⟨v, hphase, hm | ⟨hfence, stored, hstored, hm⟩⟩ := heffect
    · exact hsame hm (by simp) (by simp) (by simp)
    · have hrow : w.row = some .pending := hi.pending c (by rw [hphase]; rfl)
      have hnew : (w.row.map fun _ => cellOf stored) = some (.result stored) := by
        rw [hrow, Option.map_some, cellOf_reload (hi.proper c v hphase) hstored]
      rw [hnew] at hm
      refine history_moves hh hm (fun r hr => ?_) (fun r hr => ?_) (by simp) (fun u hu => ?_)
        (by simp)
      · rw [hrow] at hr
        cases hr
      · cases hr
        exact Or.inr ⟨v, hphase, by rw [hfence], hstored⟩
      · cases hu
        exact ⟨stored, hstored, rfl⟩
  | cleanUp c =>
    obtain ⟨hphase, row, hr, hm⟩ := heffect
    have hrow : w.row = some .pending := hi.pending c (by rw [hphase]; rfl)
    have hnone : row = none := by
      rcases hr with h | ⟨h, -⟩
      · exact h
      · exact absurd hrow h
    rw [hnone] at hm
    refine history_moves hh hm (fun r hr => ?_) (by simp) (by simp) (by simp) (by simp)
    rw [hrow] at hr
    cases hr
  | interrupt c => exact hsame heffect.2 (by simp) (by simp) (by simp)
  | threadDies t => exact history_ended hh heffect.1 heffect.2
  | tick seconds => exact history_ended hh heffect.1 heffect.2
  | crash ledgers => exact history_ended hh heffect.1 heffect.2

/-- Every run of non-overlapping calls keeps the invariant and its history. -/
theorem history_run {cfg : Config PyValue} {events : List Event} {s : World PyValue}
    (halone : resumable.Along NonOverlapping cfg.world events)
    (hs : resumable.run cfg.world events = some s) :
    Sequential s ∧ History cfg.row events s := by
  induction events using List.reverseRecOn generalizing s with
  | nil =>
    have hws : cfg.world = s := Option.some.inj hs
    exact hws ▸ ⟨sequential_init cfg, history_init cfg⟩
  | append_singleton events e ih =>
    obtain ⟨t, ht, he⟩ := System.run_snoc.mp hs
    obtain ⟨hit, hht⟩ := ih (System.along_prefix halone) ht
    have hlast : NonOverlapping t e s := (System.along_append halone ht s he).1
    exact ⟨sequential_step hit he hlast, history_step hit hht he⟩

/-- The first poll of a call past the fence is answered from the row. -/
theorem poll_stored {w : World PyValue} {d : CallId} {r : PyValue}
    (hrow : w.row = some (.result r)) (hd : (w.call d).phase = .looping) :
    resumeStep w (.poll d true) = some (setPhase w d (.stored r)) := by
  simp only [resumeStep, step, hd, poll, hrow, if_true]

/-- Without a result in the row, a poll past the fence executes, or waits for the holder of a
pending row that is alive in its own ledger. -/
theorem poll_unstored {w : World PyValue} {d : CallId} (hrow : ∀ r, w.row ≠ some (.result r))
    (hd : (w.call d).phase = .looping) :
    ∃ w', resumeStep w (.poll d true) = some w' ∧
      ((w'.call d).phase = .executing ∨ ((w'.call d).phase = .unclaimed ∧
        w.row = some .pending ∧ liveWaitEvent w (w.call d).ledger = true)) := by
  refine ⟨poll w d, by simp only [resumeStep, step, hd, if_true], ?_⟩
  unfold poll
  dsimp only
  split
  · rename_i r hr
    exact absurd hr (hrow r)
  · rename_i hpending
    split
    · rename_i hlive
      exact Or.inr ⟨(moves_setPhase w d _).phase, hpending, hlive⟩
    · exact Or.inl (moves_setPhase _ d _).phase
  · exact Or.inl (moves_setPhase _ d _).phase

/-- Replay, in every run of non-overlapping calls cut anywhere into `pre` and `post`. A call
whose own value was stored left its reload in the row. A stored result was produced by a
function that returned; from then on no function runs, the row stays, and every later call
that the fence admits gets that result. After a function that raised the row has no result
until a call stores one: no call returns one from it and the next poll executes or waits, and
the failed call's own clean-up leaves no row at all. -/
theorem stored_result_replayed (cfg : Config PyValue) (pre post : List Event)
    {s u : World PyValue} (halone : resumable.Along NonOverlapping cfg.world (pre ++ post))
    (hs : resumable.run cfg.world pre = some s) (hu : resumable.run s post = some u) :
    (∀ c v, (s.call c).phase = .returned v →
      ∃ r, v.reload = some r ∧ s.row = some (.result r)) ∧
    (∀ r, s.row = some (.result r) →
      (cfg.row = some (.result r) ∨
        ∃ c v, Event.fnReturn c v ∈ pre ∧ Event.publish c true ∈ pre ∧ v.reload = some r) ∧
      u.row = some (.result r) ∧
      resumable.Along (fun _ _ w => ∀ c, (w.call c).phase ≠ .executing) s post ∧
      ∀ d, (s.call d).phase = .called →
        ((u.call d).phase = .called ∨ Served r post d (u.call d).phase) ∧
        ((u.call d).phase = .looping →
          resumeStep u (.poll d true) = some (setPhase u d (.stored r)))) ∧
    (∀ c, (s.call c).phase = .cleaning →
      (∀ t, resumeStep s (.cleanUp c) = some t → t.row = none) ∧
      ((∀ d, Event.publish d true ∉ post) →
        (∀ r, u.row ≠ some (.result r)) ∧
        (∀ d r, (s.call d).phase = .called → (u.call d).phase ≠ .stored r) ∧
        ∀ d, (u.call d).phase = .looping →
          ∃ w, resumeStep u (.poll d true) = some w ∧
            ((w.call d).phase = .executing ∨ ((w.call d).phase = .unclaimed ∧
              u.row = some .pending ∧ liveWaitEvent u (u.call d).ledger = true)))) := by
  obtain ⟨hi, hh⟩ := history_run (System.along_prefix halone) hs
  have hpost : resumable.Along NonOverlapping s post := System.along_append halone hs
  refine ⟨hh.returned, fun r hr => ?_, fun c hc => ⟨fun t ht => ?_, fun hquiet => ?_⟩⟩
  · obtain ⟨hrow, hidle, hcall⟩ := recorded_run hi hr hpost hu
    refine ⟨hh.result r hr, hrow, hidle, fun d hd => ⟨?_, poll_stored hrow⟩⟩
    rcases hcall d with h | h
    · exact Or.inl (h.trans hd)
    · exact Or.inr h
  · have hrow : s.row = some .pending := hi.pending c (by rw [hc]; rfl)
    obtain ⟨-, row, hgone, hm⟩ : Effect s t (.cleanUp c) := effect_of_step ht
    rcases hgone with h | ⟨h, -⟩
    · rw [hm.row, h]
    · exact absurd hrow h
  · have hrow : s.row = some .pending := hi.pending c (by rw [hc]; rfl)
    have hnone : ∀ r, s.row ≠ some (.result r) := by
      intro r hr
      rw [hrow] at hr
      cases hr
    obtain ⟨hrowu, hcallu⟩ := unrecorded_run hnone hu hquiet
    refine ⟨hrowu, fun d r hd hstored => ?_, fun d => poll_unstored hrowu⟩
    have hold := hcallu d r hstored
    rw [hd] at hold
    cases hold

/-- One key that no process has used yet, two ledger objects in two processes. -/
def freshKey : Config PyValue where
  row := none
  pendingTimeout _ := 5
  ledger c := c
  thread c := c
  monotonic := 0

def firstCall : List Event :=
  [.enter 0, .poll 0 true, .fnReturn 0 (.dict [("exit_code", .int 0)]), .publish 0 true]

theorem firstCall_alone (fenceOk : Bool) :
    resumable.Along NonOverlapping freshKey.world
      (firstCall ++ [.enter 1, .poll 1 fenceOk]) := by
  have hother : ∀ {w w' : World PyValue} {e : Event}, (∀ c, e ≠ .enter c) →
      NonOverlapping w e w' := fun he c hc => absurd hc (he c)
  intro w hw
  refine ⟨fun _ _ _ => rfl, fun w₁ h₁ => ⟨hother (by simp), fun w₂ h₂ => ⟨hother (by simp),
    fun w₃ h₃ => ⟨hother (by simp), fun w₄ h₄ => ⟨fun c _ d => ?_,
      fun w₅ h₅ => ⟨hother (by simp), trivial⟩⟩⟩⟩⟩⟩
  cases hw
  cases h₁
  cases h₂
  cases h₃
  match d with
  | 0 => rfl
  | _ + 1 => rfl

/-- The second call holds a token that its lease has lost, and raises before it reads the row. -/
theorem fenced_call_raises :
    resumable.Along NonOverlapping freshKey.world
        (firstCall ++ [.enter 1, .poll 1 false]) ∧
      ∃ s u, resumable.run freshKey.world firstCall = some s ∧
        s.row = some (.result (.dict [("exit_code", .int 0)])) ∧
        resumable.run s [.enter 1, .poll 1 false] = some u ∧
        (s.call 1).phase = .called ∧ (u.call 1).phase = .raised :=
  ⟨firstCall_alone false, _, _, rfl, rfl, rfl, rfl, rfl⟩

/-- The result of the first call is what the second one returns. -/
theorem stored_result_replayed_once :
    ∃ s u, resumable.run freshKey.world firstCall = some s ∧
      resumable.run s [.enter 1, .poll 1 true] = some u ∧
      (∀ c v, (s.call c).phase = .returned v →
        ∃ r, v.reload = some r ∧ s.row = some (.result r)) ∧
      (u.call 1).phase = .stored (.dict [("exit_code", .int 0)]) :=
  ⟨_, _, rfl, rfl,
    (stored_result_replayed freshKey firstCall [.enter 1, .poll 1 true] (firstCall_alone true)
      rfl rfl).1, rfl⟩

end Recertia.Operation
