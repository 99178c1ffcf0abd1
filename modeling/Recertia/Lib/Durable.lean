import Mathlib.Data.List.Basic
import Mathlib.Logic.Function.Basic

/-! Programs that record the results of their operations under keys. The environment answers
every request, a run may be cut anywhere, and the next run starts over with the record. -/
namespace Durable

/-- What an operation does until it has a result to record, or raises. -/
inductive Body (W : Type*) (A : W → Type*) (R E : Type*)
  | ret (r : R)
  | raise (e : E)
  | perform (w : W) (k : A w → Body W A R E)

/-- `once` replays a recorded result, else runs its body and records what that returns; a body
that raises records nothing and ends the program. -/
inductive Prog (W : Type*) (A : W → Type*) (K R E α : Type*)
  | ret (a : α)
  | perform (w : W) (k : A w → Prog W A K R E α)
  | once (key : K) (body : Body W A R E) (onRaise : E → α) (k : R → Prog W A K R E α)

inductive Event (W K R : Type*)
  | performed (w : W)
  | recorded (key : K) (r : R)

variable {W : Type*} {A : W → Type*} {K R E α σ : Type*}

/-- The record behind the events. -/
def after [DecidableEq K] (led : K → Option R) : List (Event W K R) → K → Option R
  | [] => led
  | .performed _ :: es => after led es
  | .recorded key r :: es => after (Function.update led key (some r)) es

/-- `b` can show the work `ws`, and then end with a result or, for `none`, be cut. -/
inductive Body.Trace : Body W A R E → List W → Option (Except E R) → Prop
  | cut (b : Body W A R E) : Trace b [] none
  | ret (r : R) : Trace (.ret r) [] (some (.ok r))
  | raise (e : E) : Trace (.raise e) [] (some (.error e))
  | perform {w : W} {k : A w → Body W A R E} {a : A w} {ws : List W} {o : Option (Except E R)}
      (h : Trace (k a) ws o) : Trace (.perform w k) (w :: ws) o

def performedAll (ws : List W) : List (Event W K R) := ws.map .performed

/-- `p` can show the events from the record `led`, whatever the answers, and then end with an
outcome or, for `none`, be cut. -/
inductive Prog.Trace [DecidableEq K] :
    (K → Option R) → Prog W A K R E α → List (Event W K R) → Option α → Prop
  | cut (led : K → Option R) (p : Prog W A K R E α) : Trace led p [] none
  | ret (led : K → Option R) (x : α) : Trace led (.ret x) [] (some x)
  | perform {led : K → Option R} {w : W} {k : A w → Prog W A K R E α} {a : A w}
      {es : List (Event W K R)} {o : Option α} (h : Trace led (k a) es o) :
      Trace led (.perform w k) (.performed w :: es) o
  | replayed {led : K → Option R} {key : K} {r : R} {body : Body W A R E} {onRaise : E → α}
      {k : R → Prog W A K R E α} {es : List (Event W K R)} {o : Option α}
      (hled : led key = some r) (h : Trace led (k r) es o) :
      Trace led (.once key body onRaise k) es o
  /-- cut inside the body, or behind it and before its result is recorded -/
  | unrecorded {led : K → Option R} {key : K} {body : Body W A R E} {onRaise : E → α}
      {k : R → Prog W A K R E α} {ws : List W} {b : Option (Except E R)}
      (hled : led key = none) (h : body.Trace ws b) :
      Trace led (.once key body onRaise k) (performedAll ws) none
  | raised {led : K → Option R} {key : K} {e : E} {body : Body W A R E} {onRaise : E → α}
      {k : R → Prog W A K R E α} {ws : List W} (hled : led key = none)
      (h : body.Trace ws (some (.error e))) :
      Trace led (.once key body onRaise k) (performedAll ws) (some (onRaise e))
  | recorded {led : K → Option R} {key : K} {r : R} {body : Body W A R E} {onRaise : E → α}
      {k : R → Prog W A K R E α} {ws : List W} {es : List (Event W K R)} {o : Option α}
      (hled : led key = none) (h : body.Trace ws (some (.ok r)))
      (hes : Trace (Function.update led key (some r)) (k r) es o) :
      Trace led (.once key body onRaise k) (performedAll ws ++ .recorded key r :: es) o

/-- The body under an environment with a state. -/
def Body.run (env : (w : W) → σ → A w × σ) : Body W A R E → σ → Except E R × σ
  | .ret r, st => (.ok r, st)
  | .raise e, st => (.error e, st)
  | .perform w k, st => (k (env w st).1).run env (env w st).2

/-- The run that nothing cuts. -/
def Prog.run [DecidableEq K] (env : (w : W) → σ → A w × σ) :
    (K → Option R) → Prog W A K R E α → σ → α × σ
  | _, .ret x, st => (x, st)
  | led, .perform w k, st => Prog.run env led (k (env w st).1) (env w st).2
  | led, .once key body onRaise k, st =>
    match led key with
    | some r => Prog.run env led (k r) st
    | none =>
      match body.run env st with
      | (.ok r, st) => Prog.run env (Function.update led key (some r)) (k r) st
      | (.error e, st) => (onRaise e, st)

/-- The body's work belongs to `key`. -/
def Body.Within (owner : W → Option K) (key : K) : Body W A R E → Prop
  | .ret _ => True
  | .raise _ => True
  | .perform w k => owner w = some key ∧ ∀ a, (k a).Within owner key

/-- Work inside an operation belongs to its key, and work outside belongs to none. -/
def Prog.Owned (owner : W → Option K) : Prog W A K R E α → Prop
  | .ret _ => True
  | .perform w k => owner w = none ∧ ∀ a, (k a).Owned owner
  | .once key body _ k => body.Within owner key ∧ ∀ r, (k r).Owned owner

/-- The program has no operations. -/
def Prog.Bare : Prog W A K R E α → Prop
  | .ret _ => True
  | .perform _ k => ∀ a, (k a).Bare
  | .once _ _ _ _ => False

/-- The operation of the work `w` is recorded in the events. -/
def Settled (owner : W → Option K) (es : List (Event W K R)) (w : W) : Prop :=
  ∃ key r, owner w = some key ∧ Event.recorded key r ∈ es

theorem mem_performedAll {ws : List W} {w : W} :
    (Event.performed w : Event W K R) ∈ performedAll ws ↔ w ∈ ws := by
  constructor
  · intro h
    obtain ⟨v, hv, heq⟩ := List.mem_map.mp h
    have hvw : v = w := Event.performed.inj heq
    exact hvw ▸ hv
  · intro h
    exact List.mem_map.mpr ⟨w, h, rfl⟩

theorem recorded_notMem_performedAll {ws : List W} {key : K} {r : R} :
    (Event.recorded key r : Event W K R) ∉ performedAll ws := by
  intro h
  obtain ⟨v, -, heq⟩ := List.mem_map.mp h
  cases heq

theorem owner_of_trace {owner : W → Option K} {key : K} {b : Body W A R E} {ws : List W}
    {o : Option (Except E R)} (h : b.Trace ws o) (hb : b.Within owner key) :
    ∀ w ∈ ws, owner w = some key := by
  induction h with
  | cut | ret | raise => exact fun w hw => (List.not_mem_nil hw).elim
  | perform _ ih =>
    intro w hw
    rcases List.mem_cons.mp hw with rfl | hw
    · exact hb.1
    · exact ih (hb.2 _) w hw

variable [DecidableEq K]

/-- A run performs only work whose operation the record does not hold. -/
theorem unrecorded_of_performed {owner : W → Option K} {led : K → Option R}
    {p : Prog W A K R E α} {es : List (Event W K R)} {o : Option α} (h : Prog.Trace led p es o)
    (hp : p.Owned owner) {w : W} (hw : Event.performed w ∈ es) {key : K}
    (hkey : owner w = some key) : led key = none := by
  induction h with
  | cut | ret => exact (List.not_mem_nil hw).elim
  | perform _ ih =>
    rcases List.mem_cons.mp hw with heq | hw
    · have hnone := hp.1
      rw [← Event.performed.inj heq, hkey] at hnone
      cases hnone
    · exact ih (hp.2 _) hw
  | replayed _ _ ih => exact ih (hp.2 _) hw
  | unrecorded hled hbody | raised hled hbody =>
    have howner := owner_of_trace hbody hp.1 w (mem_performedAll.mp hw)
    rw [hkey] at howner
    exact Option.some.inj howner ▸ hled
  | @recorded led key' r _ _ _ _ _ _ hled hbody _ ih =>
    rcases List.mem_append.mp hw with hw | hw
    · have howner := owner_of_trace hbody hp.1 w (mem_performedAll.mp hw)
      rw [hkey] at howner
      exact Option.some.inj howner ▸ hled
    · rcases List.mem_cons.mp hw with heq | hw
      · cases heq
      · have hnone := ih (hp.2 r) hw
        by_cases hk : key = key'
        · rw [hk, Function.update_self] at hnone
          cases hnone
        · rwa [Function.update_of_ne hk] at hnone

theorem after_append (led : K → Option R) (es fs : List (Event W K R)) :
    after led (es ++ fs) = after (after led es) fs := by
  induction es generalizing led with
  | nil => rfl
  | cons e es ih =>
    cases e with
    | performed w => exact ih led
    | recorded key r => exact ih _

theorem after_performedAll (led : K → Option R) (ws : List W) :
    after led (performedAll ws : List (Event W K R)) = led := by
  induction ws with
  | nil => rfl
  | cons w ws ih => exact ih

/-- What the record holds stays there. -/
theorem after_of_unrecorded {led : K → Option R} {es : List (Event W K R)} {key : K}
    (h : ∀ r, Event.recorded key r ∉ es) : after led es key = led key := by
  induction es generalizing led with
  | nil => rfl
  | cons e es ih =>
    have htail : ∀ r, Event.recorded key r ∉ es := fun r hr => h r (List.mem_cons_of_mem _ hr)
    cases e with
    | performed w => exact ih htail
    | recorded key' r' =>
      have hne : key ≠ key' := by
        intro heq
        exact h r' (heq ▸ List.mem_cons_self)
      calc after led (Event.recorded key' r' :: es) key
          = Function.update led key' (some r') key := ih htail
        _ = led key := Function.update_of_ne hne _ _

theorem after_isSome_of_recorded {led : K → Option R} {es : List (Event W K R)} {key : K} {r : R}
    (h : Event.recorded key r ∈ es) : (after led es key).isSome = true := by
  have hkept : ∀ (es : List (Event W K R)) (led : K → Option R), (led key).isSome = true →
      (after led es key).isSome = true := by
    intro es
    induction es with
    | nil => exact fun _ h => h
    | cons e es ih =>
      intro led hled
      cases e with
      | performed w => exact ih led hled
      | recorded key' r' =>
        apply ih
        by_cases hk : key = key'
        · rw [hk, Function.update_self]
          rfl
        · rwa [Function.update_of_ne hk]
  induction es generalizing led with
  | nil => exact (List.not_mem_nil h).elim
  | cons e es ih =>
    rcases List.mem_cons.mp h with heq | htail
    · subst heq
      exact hkept es _ (by rw [Function.update_self]; rfl)
    · cases e with
      | performed w => exact ih htail
      | recorded key' r' => exact ih htail

/-- A run records an operation at most once. -/
theorem none_of_recorded {led : K → Option R} {p : Prog W A K R E α} {es : List (Event W K R)}
    {o : Option α} (h : Prog.Trace led p es o) {key : K} {r : R} (hr : Event.recorded key r ∈ es) :
    led key = none := by
  induction h with
  | cut | ret => exact (List.not_mem_nil hr).elim
  | perform _ ih =>
    rcases List.mem_cons.mp hr with heq | hr
    · cases heq
    · exact ih hr
  | replayed _ _ ih => exact ih hr
  | unrecorded _ _ | raised _ _ => exact (recorded_notMem_performedAll hr).elim
  | @recorded led key' r' _ _ _ _ _ _ hled _ _ ih =>
    rcases List.mem_append.mp hr with hr | hr
    · exact (recorded_notMem_performedAll hr).elim
    · by_cases hk : key = key'
      · rw [hk]
        exact hled
      · rcases List.mem_cons.mp hr with heq | hr
        · exact absurd (Event.recorded.inj heq).1 hk
        · have hnone := ih hr
          rwa [Function.update_of_ne hk] at hnone

/-- A recorded result is what the next run finds. -/
theorem after_of_recorded {led : K → Option R} {p : Prog W A K R E α} {es : List (Event W K R)}
    {o : Option α} (h : Prog.Trace led p es o) {key : K} {r : R}
    (hr : Event.recorded key r ∈ es) : after led es key = some r := by
  induction h with
  | cut | ret => exact (List.not_mem_nil hr).elim
  | perform _ ih =>
    rcases List.mem_cons.mp hr with heq | hr
    · cases heq
    · exact ih hr
  | replayed _ _ ih => exact ih hr
  | unrecorded _ _ | raised _ _ => exact (recorded_notMem_performedAll hr).elim
  | @recorded led key' r' _ _ _ ws es _ hled _ hes ih =>
    rw [after_append, after_performedAll]
    show after (Function.update led key' (some r')) es key = some r
    rcases List.mem_append.mp hr with hr | hr
    · exact (recorded_notMem_performedAll hr).elim
    · rcases List.mem_cons.mp hr with heq | hr
      · obtain ⟨rfl, rfl⟩ := Event.recorded.inj heq
        have hnot : ∀ r', Event.recorded key r' ∉ es := by
          intro r' hr'
          have hnone := none_of_recorded hes hr'
          rw [Function.update_self] at hnone
          cases hnone
        rw [after_of_unrecorded hnot, Function.update_self]
      · exact ih hr

/-- Work whose operation was cut before it was recorded is done again when the answers are the
same. -/
theorem repeated_of_unsettled {owner : W → Option K} {led : K → Option R}
    {p : Prog W A K R E α} {es : List (Event W K R)} {o : Option α} (h : Prog.Trace led p es o)
    (hp : p.Owned owner) {w : W} (hw : Event.performed w ∈ es) (hopen : ¬ Settled owner es w) :
    ∃ fs, Prog.Trace (after led es) p fs none ∧ Event.performed w ∈ fs := by
  induction h with
  | cut | ret => exact (List.not_mem_nil hw).elim
  | @perform led v k a es o h ih =>
    rcases List.mem_cons.mp hw with heq | hw
    · rw [Event.performed.inj heq]
      exact ⟨_, .perform (a := a) (.cut _ _), List.mem_cons_self⟩
    · have hopen' : ¬ Settled owner es w := by
        rintro ⟨key, r, hkey, hr⟩
        exact hopen ⟨key, r, hkey, List.mem_cons_of_mem _ hr⟩
      obtain ⟨fs, hfs, hmem⟩ := ih (hp.2 a) hw hopen'
      exact ⟨_, .perform hfs, List.mem_cons_of_mem _ hmem⟩
  | @replayed led key r body onRaise k es o hled h ih =>
    obtain ⟨fs, hfs, hmem⟩ := ih (hp.2 r) hw hopen
    have hkept : after led es key = some r := by
      have hnot : ∀ r', Event.recorded key r' ∉ es := by
        intro r' hr'
        have hnone := none_of_recorded h hr'
        rw [hled] at hnone
        cases hnone
      rw [after_of_unrecorded hnot, hled]
    exact ⟨fs, .replayed hkept hfs, hmem⟩
  | unrecorded hled hbody | raised hled hbody =>
    rw [after_performedAll]
    exact ⟨_, .unrecorded hled hbody, hw⟩
  | @recorded led key r body onRaise k ws es o hled hbody hes ih =>
    rcases List.mem_append.mp hw with hw | hw
    · -- the work of a recorded body is settled
      have hkey : owner w = some key := owner_of_trace hbody hp.1 w (mem_performedAll.mp hw)
      have hmem : Event.recorded key r ∈ performedAll ws ++ Event.recorded key r :: es :=
        List.mem_append_right _ List.mem_cons_self
      exact absurd ⟨key, r, hkey, hmem⟩ hopen
    · rcases List.mem_cons.mp hw with heq | hw
      · cases heq
      · have hopen' : ¬ Settled owner es w := by
          rintro ⟨key', r', hkey', hr'⟩
          exact hopen ⟨key', r', hkey',
            List.mem_append_right _ (List.mem_cons_of_mem _ hr')⟩
        obtain ⟨fs, hfs, hmem⟩ := ih (hp.2 r) hw hopen'
        have hafter : after led (performedAll ws ++ Event.recorded key r :: es) =
            after (Function.update led key (some r)) es := by
          rw [after_append, after_performedAll]
          rfl
        have hkept : after (Function.update led key (some r)) es key = some r := by
          have hnot : ∀ r', Event.recorded key r' ∉ es := by
            intro r' hr'
            have hnone := none_of_recorded hes hr'
            rw [Function.update_self] at hnone
            cases hnone
          rw [after_of_unrecorded hnot, Function.update_self]
        rw [hafter]
        exact ⟨fs, .replayed hkept hfs, hmem⟩

theorem recorded_notMem_of_bare {led : K → Option R} {p : Prog W A K R E α}
    {es : List (Event W K R)} {o : Option α} (h : Prog.Trace led p es o) (hp : p.Bare) (key : K)
    (r : R) : Event.recorded key r ∉ es := by
  induction h with
  | cut | ret => exact List.not_mem_nil
  | perform _ ih =>
    intro hr
    rcases List.mem_cons.mp hr with heq | hr
    · cases heq
    · exact ih (hp _) hr
  | replayed | unrecorded | raised | recorded => exact hp.elim

/-- The resumption rule. A cut run is never repeated by the programs that may come `Next`, its
own among them, exactly when the work it performed is settled. -/
theorem never_repeated_iff {owner : W → Option K} {led : K → Option R}
    {p : Prog W A K R E α} {es : List (Event W K R)} {o : Option α} (h : Prog.Trace led p es o)
    (Next : Prog W A K R E α → Prop) (hself : Next p) (hnext : ∀ q, Next q → q.Owned owner)
    (counted : W → Prop) :
    (∀ q, Next q → ∀ fs o, Prog.Trace (after led es) q fs o →
        ∀ w, counted w → Event.performed w ∈ es → Event.performed w ∉ fs) ↔
      ∀ w, counted w → Event.performed w ∈ es → Settled owner es w := by
  constructor
  · intro hnever w hcounted hw
    by_contra hopen
    obtain ⟨fs, hfs, hmem⟩ := repeated_of_unsettled h (hnext p hself) hw hopen
    exact hnever p hself fs none hfs w hcounted hw hmem
  · intro hsettled q hq fs o hfs w hcounted hw hmem
    obtain ⟨key, r, hkey, hr⟩ := hsettled w hcounted hw
    have hnone : after led es key = none := unrecorded_of_performed hfs (hnext q hq) hmem hkey
    have hsome : (after led es key).isSome = true := after_isSome_of_recorded hr
    rw [hnone] at hsome
    cases hsome

theorem Prog.run_once_fresh (env : (w : W) → σ → A w × σ) {led : K → Option R} {key : K}
    (body : Body W A R E) (onRaise : E → α) (k : R → Prog W A K R E α) (st : σ)
    (h : led key = none) :
    (Prog.once key body onRaise k).run env led st =
      match body.run env st with
      | (.ok r, st) => (k r).run env (Function.update led key (some r)) st
      | (.error e, st) => (onRaise e, st) := by
  rw [Prog.run, h]

theorem Body.trace_of_run (env : (w : W) → σ → A w × σ) (b : Body W A R E) (st : σ) :
    ∃ ws, b.Trace ws (some (b.run env st).1) := by
  induction b generalizing st with
  | ret r => exact ⟨[], .ret r⟩
  | raise e => exact ⟨[], .raise e⟩
  | perform w k ih =>
    obtain ⟨ws, hws⟩ := ih (env w st).1 (env w st).2
    exact ⟨w :: ws, .perform hws⟩

/-- The uncut run under any environment is one of the traces. -/
theorem Prog.trace_of_run (env : (w : W) → σ → A w × σ) (led : K → Option R)
    (p : Prog W A K R E α) (st : σ) : ∃ es, Prog.Trace led p es (some (p.run env led st).1) := by
  induction p generalizing led st with
  | ret x => exact ⟨[], .ret led x⟩
  | perform w k ih =>
    obtain ⟨es, hes⟩ := ih (env w st).1 led (env w st).2
    exact ⟨.performed w :: es, .perform hes⟩
  | once key body onRaise k ih =>
    obtain ⟨ws, hws⟩ := body.trace_of_run env st
    unfold Prog.run
    split
    · rename_i r hr
      obtain ⟨es, hes⟩ := ih r led st
      exact ⟨es, .replayed hr hes⟩
    · rename_i hnone
      split
      · rename_i r st' hrun
        rw [hrun] at hws
        obtain ⟨es, hes⟩ := ih r (Function.update led key (some r)) st'
        exact ⟨_, .recorded hnone hws hes⟩
      · rename_i e st' hrun
        rw [hrun] at hws
        exact ⟨_, .raised hnone hws⟩

end Durable
