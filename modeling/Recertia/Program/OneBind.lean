import Recertia.Program.Settles
import Recertia.Program.StatusMachine

/-! At most one bind of a step and no lost update, over every interleaving of the clients of one
program: a save is computed from the very program that it replaces, and a step is bound once. -/
namespace Recertia.Program.Clients

open Transition

/-- A run that a request has bound to a step. -/
structure Bind where
  call : CallId
  stepId : String
  runId : String
  deriving DecidableEq

/-- The binds of the store, and the programs that it has held since each request arrived. -/
structure History where
  binds : List Bind := []
  since : CallId → List MigrationProgram := fun _ => []

/-- The run that a save binds. -/
def After.bound : After → Option (String × String)
  | .answer _ (.run stepId runId) => some (stepId, runId)
  | .answer _ _ => none
  | .complete held runId => some (held.bind.stepId, runId)

def After.binds (after : After) (c : CallId) : List Bind :=
  after.bound.toList.map fun pair => ⟨c, pair.1, pair.2⟩

def see (w : World) (l : Label) (w' : World) (h : History) : History :=
  match l with
  | .arrive c _ => { h with since := Function.update h.since c [w.program] }
  | .save c =>
    match w.calls c with
    | .saving read _ after =>
      if w.program.version = read.version then
        { binds := after.binds c ++ h.binds, since := fun c => w'.program :: h.since c }
      else h
    | _ => h
  | _ => h

/-- Where a request can stand that has bound a run: it is answered with this run, in progress or
state corrupt, or not at all. -/
def BoundPhase (b : Bind) : Phase → Prop
  | .completing held runId => b.stepId = held.bind.stepId ∧ b.runId = runId
  | .releasing _ none => True
  | .answered (.run stepId runId) => b.stepId = stepId ∧ b.runId = runId
  | .answered (.failed error) => error = .idempotencyInProgress ∨ error = .stateCorrupt
  | .dead => True
  | _ => False

/-- What a step of the clients keeps to. -/
structure Lawful (site : Site) (m : World × History) (l : Label) (m' : World × History) :
    Prop where
  /-- a save replaces the program that it was computed from -/
  saved : m'.1.program = m.1.program ∨ ∃ c next after, l = .save c ∧
    m.1.calls c = .saving m.1.program next after ∧ Derived m.1.program next ∧
    m'.1.program = put (some m.1.program) next
  once : (m'.2.binds.map Bind.stepId).Nodup
  kept : ∀ b ∈ m'.2.binds, currentRun m'.1.program b.stepId = some b.runId
  answered : ∀ c stepId runId, m'.1.calls c = .answered (.run stepId runId) →
    ∃ prog ∈ m'.2.since c, currentRun prog stepId = some runId
  outcome : ∀ b ∈ m'.2.binds, BoundPhase b (m'.1.calls b.call)
  /-- a keyed bind is answered with its run once its row is complete with it -/
  recorded : ∀ c held runId, l = .complete c → m.1.calls c = .completing held runId →
    m'.1.calls c = .answered (.run held.bind.stepId runId) →
    ∃ row, m'.1.keys.get? (site.scope held.bind) = some row ∧
      row.requestHash = site.requestHash held.bind.body ∧ row.state = .complete runId

def Unbound (binds : List Bind) (c : CallId) : Prop := ∀ b ∈ binds, b.call ≠ c

/-- The call has bound this run to this step, if any. -/
def Own (binds : List Bind) (c : CallId) (stepId runId : String) : Prop :=
  ∀ b ∈ binds, b.call = c → b.stepId = stepId ∧ b.runId = runId

def Shown (since : List MigrationProgram) (stepId runId : String) : Prop :=
  ∃ prog ∈ since, currentRun prog stepId = some runId

/-- What comes behind a save: a run in it is the one that the save binds, and a seed has none. -/
structure Announces (read next : MigrationProgram) (after : After) : Prop where
  binds : ∀ pair, after.bound = some pair → Binds read next pair.1 pair.2
  seed : ∀ stepId checkout saved, after = .answer (.seedWorkdir stepId checkout) saved →
    after.bound = none

/-- What a request knows: a version that is still stored stands for the program read with it. -/
def PhaseInv (prog : MigrationProgram) (binds : List Bind) (since : List MigrationProgram)
    (c : CallId) : Phase → Prop
  | .idle => Unbound binds c
  | .arrived _ => Unbound binds c ∧ prog ∈ since
  | .reserving _ => Unbound binds c ∧ prog ∈ since
  | .replaying _ _ => Unbound binds c ∧ prog ∈ since
  | .previewing _ => Unbound binds c
  | .holding _ _ => Unbound binds c ∧ prog ∈ since
  | .saving read next after => Unbound binds c ∧ Derived read next ∧
    read.version ≤ prog.version ∧ (read.version = prog.version → read = prog) ∧
    Announces read next after
  | .completing held runId => Shown since held.bind.stepId runId ∧
    Own binds c held.bind.stepId runId
  | .releasing _ none => True
  | .releasing _ (some answer) => Unbound binds c ∧ ∀ stepId runId, answer ≠ .run stepId runId
  | .answered (.run stepId runId) => Shown since stepId runId ∧ Own binds c stepId runId
  | .answered .ok => Unbound binds c
  | .answered (.failed error) =>
    Unbound binds c ∨ error = .idempotencyInProgress ∨ error = .stateCorrupt
  | .dead => True

structure Inv (m : World × History) : Prop where
  calls : ∀ c, PhaseInv m.1.program m.2.binds (m.2.since c) c (m.1.calls c)
  taken : ∀ b ∈ m.2.binds, Taken m.1.program b.stepId b.runId
  once : (m.2.binds.map Bind.stepId).Nodup

theorem Inv.phase {w : World} {h : History} (hinv : Inv (w, h)) {c : CallId} {phase : Phase}
    (hcall : w.calls c = phase) : PhaseInv w.program h.binds (h.since c) c phase := by
  rw [← hcall]
  exact hinv.calls c

theorem own_of_unbound {binds : List Bind} {c : CallId} {stepId runId : String}
    (h : Unbound binds c) : Own binds c stepId runId := fun b hb hcall => absurd hcall (h b hb)

theorem phaseInv_failed {prog : MigrationProgram} {binds : List Bind}
    {since : List MigrationProgram} {c : CallId} {error : ServiceError} (h : Unbound binds c) :
    PhaseInv prog binds since c (.answered (.failed error)) := Or.inl h

theorem phaseInv_computed {prog : MigrationProgram} {binds : List Bind}
    {since : List MigrationProgram} {c : CallId} (h : Unbound binds c) (computed : Computed) :
    PhaseInv prog binds since c (.answered (computedAnswer computed)) := by
  unfold computedAnswer
  split
  · exact h
  · exact Or.inl h

theorem computedAnswer_bound (op : Operation) (computed : Computed) :
    (After.answer op (computedAnswer computed)).bound = none := by
  unfold computedAnswer
  split <;> rfl

theorem phaseInv_saving {prog next : MigrationProgram} {binds : List Bind}
    {since : List MigrationProgram} {c : CallId} {after : After} (h : Unbound binds c)
    (hderived : Derived prog next) (hannounces : Announces prog next after) :
    PhaseInv prog binds since c (.saving prog next after) :=
  ⟨h, hderived, le_rfl, fun _ => rfl, hannounces⟩

theorem announces_nothing {prog next : MigrationProgram} {after : After}
    (h : after.bound = none) : Announces prog next after := by
  refine ⟨fun pair hpair => ?_, fun _ _ _ _ => h⟩
  rw [h] at hpair
  cases hpair

theorem announces_run {prog next : MigrationProgram} {stepId runId : String} {body : StepRunBody}
    (h : Binds prog next stepId runId) :
    Announces prog next (.answer (.runStep stepId body) (.run stepId runId)) := by
  refine ⟨fun pair hpair => ?_, fun _ _ _ hseed => by cases hseed⟩
  cases hpair
  exact h

theorem announces_complete {prog next : MigrationProgram} {held : Held} {runId : String}
    (h : Binds prog next held.bind.stepId runId) :
    Announces prog next (.complete held runId) := by
  refine ⟨fun pair hpair => ?_, fun _ _ _ hseed => by cases hseed⟩
  cases hpair
  exact h

theorem loadStep_fst {env : Env} {prog refreshed : MigrationProgram} {stepId : String}
    {step : MigrationStep} (h : loadStep env prog stepId = some (refreshed, step)) :
    refreshed = refreshStepStatuses env prog := by
  obtain ⟨found, -, hpair⟩ := Option.map_eq_some_iff.mp h
  cases hpair
  rfl

theorem phaseInv_read {prog : MigrationProgram} {binds : List Bind}
    {since : List MigrationProgram} {c : CallId} (h : Unbound binds c) (hprog : prog ∈ since)
    (load env later : Env) (op : Operation) :
    PhaseInv prog binds since c (readPhase load env later op prog) := by
  unfold readPhase
  split
  · exact phaseInv_failed h
  · split
    · split
      · exact phaseInv_failed h
      · exact ⟨h, hprog⟩
    · rename_i stepId body _ _
      split
      · exact phaseInv_failed h
      · rename_i refreshed step hload
        have hrefreshed := loadStep_fst hload
        subst hrefreshed
        split
        · exact phaseInv_failed h
        · rename_i next happly
          apply phaseInv_saving h
          · exact .ran load env later stepId body step _ hload happly rfl
          · exact announces_nothing rfl
        · rename_i runId happly
          refine ⟨⟨prog, hprog, ?_⟩, own_of_unbound h⟩
          rw [currentRun_of_load hload]
          cases applyRunStep_cases happly with
          | idempotent _ asked current => exact current
        · rename_i next runId happly
          apply phaseInv_saving h
          · exact .ran load env later stepId body step _ hload happly rfl
          · exact announces_run ⟨load, env, later, body, step, hload, happly⟩
    · dsimp only
      split
      · exact phaseInv_computed h _
      · rename_i next hsave
        apply phaseInv_saving h
        · exact .operated load _ hsave
        · exact announces_nothing (computedAnswer_bound _ _)

theorem phaseInv_held {prog : MigrationProgram} {binds : List Bind}
    {since : List MigrationProgram} {c : CallId} (h : Unbound binds c) (hprog : prog ∈ since)
    (load env later : Env) (held : Held) (takenOver : Bool) :
    PhaseInv prog binds since c (heldPhase load env later prog held takenOver) := by
  have hreleasing (error : ServiceError) :
      PhaseInv prog binds since c (.releasing held (some (.failed error))) :=
    ⟨h, fun _ _ hanswer => by cases hanswer⟩
  unfold heldPhase
  split
  · exact hreleasing _
  · rename_i refreshed step hload
    have hrun := currentRun_of_load hload
    have hrefreshed := loadStep_fst hload
    subst hrefreshed
    split
    · rename_i hfinish
      exact ⟨⟨prog, hprog, hrun.trans hfinish.2⟩, own_of_unbound h⟩
    · split
      · exact hreleasing _
      · rename_i runId happly
        refine ⟨⟨prog, hprog, ?_⟩, own_of_unbound h⟩
        rw [hrun]
        cases applyRunStep_cases happly with
        | idempotent _ asked current => exact current
      · rename_i next runId happly
        apply phaseInv_saving h
        · exact .ran load env later held.bind.stepId held.bind.body step _ hload happly rfl
        · exact announces_complete ⟨load, env, later, held.bind.body, step, hload, happly⟩
      · rename_i next happly
        apply phaseInv_saving h
        · exact .ran load env later held.bind.stepId held.bind.body step _ hload happly rfl
        · exact announces_nothing rfl

theorem unbound_append {more binds : List Bind} {c : CallId} (hmore : Unbound more c)
    (h : Unbound binds c) : Unbound (more ++ binds) c := by
  intro b hb
  rcases List.mem_append.mp hb with hb | hb
  · exact hmore b hb
  · exact h b hb

theorem own_append {more binds : List Bind} {c : CallId} {stepId runId : String}
    (hmore : Own more c stepId runId) (h : Own binds c stepId runId) :
    Own (more ++ binds) c stepId runId := by
  intro b hb
  rcases List.mem_append.mp hb with hb | hb
  · exact hmore b hb
  · exact h b hb

theorem shown_cons {since : List MigrationProgram} {stepId runId : String}
    (prog : MigrationProgram) (h : Shown since stepId runId) :
    Shown (prog :: since) stepId runId := by
  obtain ⟨shown, hshown, hrun⟩ := h
  exact ⟨shown, List.mem_cons_of_mem _ hshown, hrun⟩

/-- The save of another request leaves what this one knows: the version that it has read is not
the stored one any more. -/
theorem phaseInv_grow {prog prog' : MigrationProgram} {binds more : List Bind}
    {since : List MigrationProgram} {c : CallId} {phase : Phase}
    (h : PhaseInv prog binds since c phase) (hversion : prog.version < prog'.version)
    (hmore : Unbound more c) : PhaseInv prog' (more ++ binds) (prog' :: since) c phase := by
  cases phase with
  | idle => exact unbound_append hmore h
  | arrived op => exact ⟨unbound_append hmore h.1, List.mem_cons_self ..⟩
  | reserving bind => exact ⟨unbound_append hmore h.1, List.mem_cons_self ..⟩
  | replaying bind runId => exact ⟨unbound_append hmore h.1, List.mem_cons_self ..⟩
  | previewing stepId => exact unbound_append hmore h
  | holding held takenOver => exact ⟨unbound_append hmore h.1, List.mem_cons_self ..⟩
  | saving read next after =>
    obtain ⟨hunbound, hderived, hle, -, hannounces⟩ := h
    refine ⟨unbound_append hmore hunbound, hderived, by omega, fun heq => ?_, hannounces⟩
    omega
  | completing held runId =>
    exact ⟨shown_cons prog' h.1, own_append (own_of_unbound hmore) h.2⟩
  | releasing held answer =>
    cases answer with
    | none => trivial
    | some answer => exact ⟨unbound_append hmore h.1, h.2⟩
  | answered answer =>
    cases answer with
    | ok => exact unbound_append hmore h
    | run stepId runId => exact ⟨shown_cons prog' h.1, own_append (own_of_unbound hmore) h.2⟩
    | failed error => exact h.imp_left (unbound_append hmore)
  | dead => trivial

/-- A step of one request that leaves the program and the binds. -/
theorem inv_setCall {w w' : World} {h : History} (hinv : Inv (w, h)) {c : CallId} {phase : Phase}
    (hprog : w'.program = w.program) (hcalls : w'.calls = Function.update w.calls c phase)
    (hphase : PhaseInv w.program h.binds (h.since c) c phase) : Inv (w', h) := by
  refine ⟨fun c' => ?_, fun b hb => ?_, hinv.once⟩
  · rw [hprog, hcalls]
    by_cases hc : c' = c
    · subst hc
      rw [Function.update_self]
      exact hphase
    · rw [Function.update_of_ne hc]
      exact hinv.calls c'
  · rw [hprog]
    exact hinv.taken b hb

theorem inv_arrive {w : World} {h : History} (hinv : Inv (w, h)) {c : CallId} (op : Operation)
    (hcall : w.calls c = .idle) :
    Inv (w.setCall c (.arrived op), { h with since := Function.update h.since c [w.program] }) := by
  have hidle := hinv.phase hcall
  refine ⟨fun c' => ?_, hinv.taken, hinv.once⟩
  by_cases hc : c' = c
  · subst hc
    simp only [World.setCall, Function.update_self]
    exact ⟨hidle, List.mem_singleton_self _⟩
  · simp only [World.setCall, Function.update_of_ne hc]
    exact hinv.calls c'

theorem mem_binds {after : After} {c : CallId} {b : Bind} (h : b ∈ after.binds c) :
    after.bound = some (b.stepId, b.runId) ∧ b.call = c := by
  obtain ⟨pair, hpair, rfl⟩ := List.mem_map.mp h
  exact ⟨Option.mem_toList.mp hpair, rfl⟩

theorem phaseInv_saved {prog : MigrationProgram} {binds : List Bind}
    {since : List MigrationProgram} {c : CallId} {after : After} (h : Unbound binds c)
    (hshown : ∀ pair, after.bound = some pair → Shown since pair.1 pair.2) :
    PhaseInv prog (after.binds c ++ binds) since c after.saved := by
  have hnone (hbound : after.bound = none) : Unbound (after.binds c ++ binds) c := by
    simp only [After.binds, hbound, Option.toList_none, List.map_nil, List.nil_append]
    exact h
  have hown (stepId runId : String) (hbound : after.bound = some (stepId, runId)) :
      Own (after.binds c ++ binds) c stepId runId := by
    refine own_append (fun b hb _ => ?_) (own_of_unbound h)
    have hpair := (mem_binds hb).1
    rw [hbound, Option.some.injEq, Prod.mk.injEq] at hpair
    exact ⟨hpair.1.symm, hpair.2.symm⟩
  cases after with
  | answer op saved =>
    cases saved with
    | ok => exact hnone rfl
    | run stepId runId => exact ⟨hshown _ rfl, hown _ _ rfl⟩
    | failed error => exact Or.inl (hnone rfl)
  | complete held runId => exact ⟨hshown _ rfl, hown _ _ rfl⟩

/-- A save that the store takes. -/
theorem inv_save {w : World} {h : History} (hinv : Inv (w, h)) {c : CallId}
    {next : MigrationProgram} {after : After} (hcall : w.calls c = .saving w.program next after) :
    Inv ({ w with program := put (some w.program) next }.setCall c after.saved,
      { binds := after.binds c ++ h.binds
        since := fun c => put (some w.program) next :: h.since c }) := by
  obtain ⟨hunbound, hderived, -, -, hannounces⟩ := hinv.phase hcall
  have hbinds := hannounces.binds
  have htaken (b : Bind) (hb : b ∈ after.binds c) :
      Binds w.program next b.stepId b.runId := hbinds _ (mem_binds hb).1
  refine ⟨fun c' => ?_, fun b hb => ?_, ?_⟩
  · by_cases hc : c' = c
    · subst hc
      simp only [World.setCall, Function.update_self]
      apply phaseInv_saved hunbound
      intro pair hpair
      have hshown : currentRun (put (some w.program) next) pair.1 = some pair.2 :=
        (hbinds pair hpair).taken.currentRun
      exact ⟨_, List.mem_cons_self .., hshown⟩
    · simp only [World.setCall, Function.update_of_ne hc]
      apply phaseInv_grow (hinv.calls c')
      · exact Nat.lt_succ_self _
      · intro b hb hcall'
        exact hc (hcall'.symm.trans (mem_binds hb).2)
  · rcases List.mem_append.mp hb with hb | hb
    · exact (htaken b hb).taken
    · have hbefore : Taken w.program b.stepId b.runId := hinv.taken b hb
      have hafter : Taken next b.stepId b.runId :=
        hbefore.settles (hderived.settles hbefore.1)
      exact hafter
  · -- A step that is bound now has not been bound before.
    cases hbound : after.bound with
    | none =>
      simp only [After.binds, hbound, Option.toList_none, List.map_nil, List.nil_append]
      exact hinv.once
    | some pair =>
      simp only [After.binds, hbound, Option.toList_some, List.map_cons, List.map_nil,
        List.cons_append, List.nil_append]
      refine List.nodup_cons.mpr ⟨fun hmem => ?_, hinv.once⟩
      obtain ⟨b, hb, hid⟩ := List.mem_map.mp hmem
      have hbefore := hinv.taken b hb
      rw [hid] at hbefore
      exact (hbinds pair hbound).untaken hbefore

theorem phaseInv_reserved {prog : MigrationProgram} {binds : List Bind}
    {since : List MigrationProgram} {c : CallId} (h : Unbound binds c) (hprog : prog ∈ since)
    (bind : KeyedBind) (reservation : Idempotency.Reservation) :
    PhaseInv prog binds since c (reservedPhase bind reservation) := by
  unfold reservedPhase
  split
  · exact phaseInv_failed h
  · exact phaseInv_failed h
  · exact ⟨h, hprog⟩
  · exact ⟨h, hprog⟩
  · exact ⟨h, hprog⟩
  · exact phaseInv_failed h

theorem phaseInv_replayed {prog : MigrationProgram} {binds : List Bind}
    {since : List MigrationProgram} {c : CallId} (h : Unbound binds c) (hprog : prog ∈ since)
    (env : Env) (bind : KeyedBind) (runId : String) :
    PhaseInv prog binds since c (.answered (replayAnswer env prog bind runId)) := by
  unfold replayAnswer
  split
  · exact phaseInv_failed h
  · rename_i refreshed step hload
    split
    · exact phaseInv_failed h
    · rename_i hrun
      rw [not_not] at hrun
      exact ⟨⟨prog, hprog, (currentRun_of_load hload).trans hrun⟩, own_of_unbound h⟩

theorem phaseInv_refused {prog read next : MigrationProgram} {binds : List Bind}
    {since : List MigrationProgram} {c : CallId} {after : After}
    (h : PhaseInv prog binds since c (.saving read next after)) (version : ℕ) :
    PhaseInv prog binds since c (after.refused version) := by
  obtain ⟨hunbound, -, -, -, hannounces⟩ := h
  cases after with
  | complete held runId => exact ⟨hunbound, fun _ _ hanswer => by cases hanswer⟩
  | answer op saved =>
    cases op with
    | get => exact hunbound
    | previewStep stepId => exact hunbound
    | seedWorkdir stepId checkout =>
      have hnone := hannounces.seed stepId checkout saved rfl
      cases saved with
      | ok => exact hunbound
      | run stepId runId => cases hnone
      | failed error => exact Or.inl hunbound
    | _ => exact Or.inl hunbound

theorem phaseInv_completed {prog : MigrationProgram} {binds : List Bind}
    {since : List MigrationProgram} {c : CallId} {held : Held} {runId : String}
    (h : PhaseInv prog binds since c (.completing held runId))
    (completion : Idempotency.Completion) :
    PhaseInv prog binds since c (.answered (completionAnswer held runId completion)) := by
  cases completion with
  | completed => exact h
  | superseded => exact Or.inr (Or.inl rfl)
  | lost => exact Or.inr (Or.inr rfl)

theorem inv_interrupted {w : World} {h : History} {c : CallId} {phase : Phase}
    (hinv : Inv (w, h)) (hphase : interrupted (w.calls c) = some phase) :
    Inv (w.setCall c phase, h) := by
  refine inv_setCall hinv rfl rfl ?_
  unfold interrupted at hphase
  split at hphase
  · cases hphase
    trivial
  · cases hphase
    trivial
  · cases hphase
    trivial
  · cases hphase

theorem phaseInv_released {prog : MigrationProgram} {binds : List Bind}
    {since : List MigrationProgram} {c : CallId} {held : Held} {answer : Option Answer}
    (h : PhaseInv prog binds since c (.releasing held answer)) :
    PhaseInv prog binds since c (answer.elim .dead .answered) := by
  cases answer with
  | none => trivial
  | some answer =>
    obtain ⟨hunbound, hnot⟩ := h
    cases answer with
    | ok => exact hunbound
    | run stepId runId => exact absurd rfl (hnot stepId runId)
    | failed error => exact Or.inl hunbound

theorem inv_step {site : Site} {w w' : World} {l : Label} {h : History} (hinv : Inv (w, h))
    (hstep : step site w l = some w') : Inv (w', see w l w' h) := by
  cases l with
  | tick seconds =>
    cases hstep
    exact ⟨hinv.calls, hinv.taken, hinv.once⟩
  | arrive c op =>
    simp only [step] at hstep
    split at hstep
    · rename_i hcall
      cases hstep
      exact inv_arrive hinv op hcall
    · cases hstep
  | read c load env later =>
    simp only [step] at hstep
    split at hstep
    · rename_i op hcall
      cases hstep
      have hphase := hinv.phase hcall
      exact inv_setCall hinv rfl rfl (phaseInv_read hphase.1 hphase.2 load env later op)
    · cases hstep
  | reserve c chosen =>
    simp only [step] at hstep
    split at hstep
    · rename_i bind hcall
      cases hstep
      have hphase := hinv.phase hcall
      exact inv_setCall hinv rfl rfl (phaseInv_reserved hphase.1 hphase.2 bind _)
    · cases hstep
  | reload c env =>
    simp only [step] at hstep
    split at hstep
    · rename_i bind runId hcall
      cases hstep
      have hphase := hinv.phase hcall
      exact inv_setCall hinv rfl rfl (phaseInv_replayed hphase.1 hphase.2 env bind runId)
    · rename_i stepId hcall
      cases hstep
      exact inv_setCall hinv rfl rfl (phaseInv_computed (hinv.phase hcall) _)
    · cases hstep
  | apply c load env later =>
    simp only [step] at hstep
    split at hstep
    · rename_i held takenOver hcall
      cases hstep
      have hphase := hinv.phase hcall
      exact inv_setCall hinv rfl rfl (phaseInv_held hphase.1 hphase.2 load env later held takenOver)
    · cases hstep
  | save c =>
    simp only [step] at hstep
    split at hstep
    · rename_i read next after hcall
      have hphase := hinv.phase hcall
      split at hstep
      · rename_i hversion
        cases hstep
        obtain ⟨-, -, -, hread, -⟩ := id hphase
        have hsame := hread hversion.symm
        subst hsame
        simp only [see, hcall, if_true]
        exact inv_save hinv hcall
      · rename_i hversion
        cases hstep
        simp only [see, hcall, if_neg hversion]
        exact inv_setCall hinv rfl rfl (phaseInv_refused hphase _)
    · cases hstep
  | complete c =>
    simp only [step] at hstep
    split at hstep
    · rename_i held runId hcall
      cases hstep
      have hphase := hinv.phase hcall
      exact inv_setCall hinv rfl rfl (phaseInv_completed hphase _)
    · cases hstep
  | release c =>
    simp only [step] at hstep
    split at hstep
    · rename_i held answer hcall
      cases hstep
      have hphase := hinv.phase hcall
      exact inv_setCall hinv rfl rfl (phaseInv_released hphase)
    · cases hstep
  | interrupt c =>
    obtain ⟨phase, hphase, rfl⟩ := Option.map_eq_some_iff.mp hstep
    exact inv_interrupted hinv hphase
  | crash c =>
    simp only [step] at hstep
    split at hstep
    · cases hstep
    · cases hstep
      exact inv_setCall hinv rfl rfl trivial

/-- Only a save writes the program, and it replaces the one that it was computed from. -/
theorem saved_step {site : Site} {w w' : World} {l : Label} {h : History} (hinv : Inv (w, h))
    (hstep : step site w l = some w') :
    w'.program = w.program ∨ ∃ c next after, l = .save c ∧
      w.calls c = .saving w.program next after ∧ Derived w.program next ∧
      w'.program = put (some w.program) next := by
  cases l with
  | save c =>
    simp only [step] at hstep
    split at hstep
    · rename_i read next after hcall
      have hphase := hinv.phase hcall
      obtain ⟨-, hderived, -, hread, -⟩ := hphase
      split at hstep
      · rename_i hversion
        cases hstep
        have hsame := hread hversion.symm
        subst hsame
        exact Or.inr ⟨c, next, after, rfl, hcall, hderived, rfl⟩
      · cases hstep
        exact Or.inl rfl
    · cases hstep
  | interrupt c =>
    obtain ⟨phase, -, rfl⟩ := Option.map_eq_some_iff.mp hstep
    exact Or.inl rfl
  | tick seconds =>
    cases hstep
    exact Or.inl rfl
  | crash c =>
    simp only [step] at hstep
    split at hstep
    · cases hstep
    · cases hstep
      exact Or.inl rfl
  | reload c env =>
    simp only [step] at hstep
    split at hstep
    · cases hstep
      exact Or.inl rfl
    · cases hstep
      exact Or.inl rfl
    · cases hstep
  | _ =>
    simp only [step] at hstep
    split at hstep
    · cases hstep
      exact Or.inl rfl
    · cases hstep

theorem boundPhase_of_inv {prog : MigrationProgram} {binds : List Bind}
    {since : List MigrationProgram} {b : Bind} {phase : Phase} (hb : b ∈ binds)
    (h : PhaseInv prog binds since b.call phase) : BoundPhase b phase := by
  have hbound (hunbound : Unbound binds b.call) : False := hunbound b hb rfl
  cases phase with
  | idle => exact (hbound h).elim
  | arrived op => exact (hbound h.1).elim
  | reserving bind => exact (hbound h.1).elim
  | replaying bind runId => exact (hbound h.1).elim
  | previewing stepId => exact (hbound h).elim
  | holding held takenOver => exact (hbound h.1).elim
  | saving read next after => exact (hbound h.1).elim
  | completing held runId => exact h.2 b hb rfl
  | releasing held answer =>
    cases answer with
    | none => trivial
    | some answer => exact (hbound h.1).elim
  | answered answer =>
    cases answer with
    | ok => exact (hbound h).elim
    | run stepId runId => exact h.2 b hb rfl
    | failed error => exact h.resolve_left hbound
  | dead => trivial

theorem recorded_step {site : Site} {w w' : World} {c : CallId} {held : Held} {runId : String}
    (hstep : step site w (.complete c) = some w') (hcall : w.calls c = .completing held runId)
    (hanswer : w'.calls c = .answered (.run held.bind.stepId runId)) :
    ∃ row, w'.keys.get? (site.scope held.bind) = some row ∧
      row.requestHash = site.requestHash held.bind.body ∧ row.state = .complete runId := by
  simp only [step, hcall, Option.some.injEq] at hstep
  subst hstep
  apply Idempotency.complete_completed
  simp only [World.setCall, Function.update_self, Phase.answered.injEq] at hanswer
  cases hcompletion : (Idempotency.complete w.keys (site.scope held.bind)
      (site.requestHash held.bind.body) runId held.lease).2 with
  | completed => rfl
  | superseded =>
    rw [hcompletion] at hanswer
    cases hanswer
  | lost =>
    rw [hcompletion] at hanswer
    cases hanswer

theorem lawful_step {site : Site} {w w' : World} {l : Label} {h : History} (hinv : Inv (w, h))
    (hstep : step site w l = some w') : Lawful site (w, h) l (w', see w l w' h) := by
  have hnext := inv_step hinv hstep
  refine ⟨saved_step hinv hstep, hnext.once, fun b hb => (hnext.taken b hb).currentRun,
    fun c stepId runId hanswer => ?_, fun b hb => ?_, fun c held runId hl hcall hanswer => ?_⟩
  · have hphase := hnext.calls c
    rw [hanswer] at hphase
    exact hphase.1
  · exact boundPhase_of_inv hb (hnext.calls b.call)
  · subst hl
    exact recorded_step hstep hcall hanswer

theorem inv_start (prog : MigrationProgram) (now : Int) : Inv (start prog now, {}) where
  calls := fun c b hb => by cases hb
  taken := fun b hb => by cases hb
  once := List.nodup_nil

/-- In every interleaving of requests on one program, with crashes at any point, a step is bound
at most once, and no save replaces another program than it was computed from. -/
theorem bound_once (site : Site) (prog : MigrationProgram) (now : Int) (ls : List Label) :
    ((system site).monitor see).Along (Lawful site) (start prog now, {}) ls := by
  apply System.along_monitor_of_inductive _ _ (inv_start prog now)
  · exact fun w h l w' hinv hstep => inv_step hinv hstep
  · exact fun w h l w' hinv hstep => lawful_step hinv hstep

def Phase.answer : Phase → Option Answer
  | .answered answer => some answer
  | _ => none

/-- An accepted program whose first step is previewed and ready. -/
def readyProgram : MigrationProgram where
  title := "migrate"
  handoff := .operatorWorkdir
  steps := [{ buildStep "a" 0 with status := .ready, criteriaPreviewHash := some "sha256" },
    buildStep "b" 1]
  tenantId := "acme"
  programId := "prog"
  status := .active
  disclaimerAckedAt := some 0
  linearOrdinalsUnique := by decide

def slowSite : Site where
  tenantId := "acme"
  programId := "prog"
  requestHash body := body.bindRunId.getD ""
  ttl := 86400

def queuedRun : Api.RunRecord where
  runId := "r1"
  taskClass := "repo-chore"
  status := "queued"
  createdAt := 0
  tenantId := "acme"
  criteriaHash := some "sha256"

def queuedEnv : Env :=
  { quietEnv with runs := fun runId => if runId = "r1" then some queuedRun else none }

def bindFirst : Operation :=
  .runStep "a" { workdir := some "w", bindRunId := some "r1", idempotencyKey := some "k" }

/-- Request 0 is slow; request 1 takes its row over, loses its save to an edit and releases the
row; then request 0 binds the run. -/
def lostRow : List Label :=
  [.arrive 0 bindFirst, .read 0 queuedEnv queuedEnv queuedEnv, .reserve 0 [], .tick 30,
    .arrive 1 bindFirst, .read 1 queuedEnv queuedEnv queuedEnv, .reserve 1 [],
    .apply 1 queuedEnv queuedEnv queuedEnv,
    .arrive 2 (.patchStep "b" { title := some "test" }), .read 2 queuedEnv queuedEnv queuedEnv,
    .save 2, .save 1, .release 1, .apply 0 queuedEnv queuedEnv queuedEnv, .save 0, .complete 0]

/-- The request that has bound its run is answered with state corrupt. -/
theorem bound_call_state_corrupt :
    ((((system slowSite).monitor see).run (start readyProgram 0, {}) lostRow).map fun m =>
      (m.2.binds, (m.1.calls 0).answer, (m.1.calls 1).answer)) =
        some ([⟨0, "a", "r1"⟩], some (.failed .stateCorrupt), some (.failed changed)) := by
  decide +kernel

end Recertia.Program.Clients
