import Mathlib.Tactic.Common

/-! Computations that leave a trace of events and return or fail. -/

@[ext] structure Traced (E ε α : Type) where
  events : List E
  result : Except ε α

namespace Traced

variable {E ε α β : Type}

def bind (x : Traced E ε α) (f : α → Traced E ε β) : Traced E ε β :=
  match x.result with
  | .ok a => ⟨x.events ++ (f a).events, (f a).result⟩
  | .error e => ⟨x.events, .error e⟩

instance : Monad (Traced E ε) where
  pure a := ⟨[], .ok a⟩
  bind := bind

theorem bind_def (x : Traced E ε α) (f : α → Traced E ε β) : x >>= f = bind x f := rfl

theorem bind_of_ok {x : Traced E ε α} {a : α} (h : x.result = .ok a) (f : α → Traced E ε β) :
    x >>= f = ⟨x.events ++ (f a).events, (f a).result⟩ := by
  rw [bind_def, bind, h]

theorem bind_of_error {x : Traced E ε α} {e : ε} (h : x.result = .error e)
    (f : α → Traced E ε β) : x >>= f = ⟨x.events, .error e⟩ := by
  rw [bind_def, bind, h]

theorem id_map' (x : Traced E ε α) : id <$> x = x := by
  change x >>= (fun a => (⟨[], .ok a⟩ : Traced E ε α)) = x
  cases h : x.result with
  | ok a => rw [bind_of_ok h, List.append_nil, ← h]
  | error e => rw [bind_of_error h, ← h]

theorem bind_assoc' {γ : Type} (x : Traced E ε α) (f : α → Traced E ε β) (g : β → Traced E ε γ) :
    x >>= f >>= g = x >>= fun a => f a >>= g := by
  cases h : x.result with
  | error e => rw [bind_of_error h, bind_of_error h, bind_of_error rfl]
  | ok a =>
    rw [bind_of_ok h, bind_of_ok h]
    cases hf : (f a).result with
    | error e => rw [bind_of_error rfl, bind_of_error hf]
    | ok b => rw [bind_of_ok rfl, bind_of_ok hf, List.append_assoc]

instance : LawfulMonad (Traced E ε) :=
  LawfulMonad.mk' (Traced E ε) id_map' (fun _ _ => rfl) bind_assoc'

def raise (e : ε) : Traced E ε α := ⟨[], .error e⟩

def emit (event : E) : Traced E ε PUnit := ⟨[event], .ok ⟨⟩⟩

def ofExcept (x : Except ε α) : Traced E ε α := ⟨[], x⟩

/-- Every event is allowed and a value that is returned meets the postcondition; an event that ends
the computation ends it with its error, and there is no other way to an error that is not quiet. -/
structure Ensures (allowed : E → Prop) (post : α → Prop) (ends : E → Option ε) (quiet : ε → Prop)
    (x : Traced E ε α) : Prop where
  events : ∀ event ∈ x.events, allowed event
  result : ∀ a, x.result = .ok a → post a
  ended : ∀ event ∈ x.events, ∀ e, ends event = some e → x.result = .error e
  error : ∀ e, x.result = .error e → quiet e ∨ ∃ event ∈ x.events, ends event = some e

namespace Ensures

variable {allowed : E → Prop} {post : α → Prop} {post' : β → Prop} {ends : E → Option ε}
  {quiet : ε → Prop}

theorem pure {a : α} (h : post a) :
    Ensures allowed post ends quiet (Pure.pure a : Traced E ε α) where
  events := fun _ hmem => absurd hmem List.not_mem_nil
  result := fun _ heq => by
    cases heq
    exact h
  ended := fun _ hmem => absurd hmem List.not_mem_nil
  error := fun _ heq => by cases heq

theorem ofExcept {x : Except ε α} (hok : ∀ a, x = .ok a → post a)
    (herror : ∀ e, x = .error e → quiet e) :
    Ensures allowed post ends quiet (Traced.ofExcept x : Traced E ε α) where
  events := fun _ hmem => absurd hmem List.not_mem_nil
  result := hok
  ended := fun _ hmem => absurd hmem List.not_mem_nil
  error := fun e he => Or.inl (herror e he)

theorem raise {e : ε} (h : quiet e) :
    Ensures allowed post ends quiet (Traced.raise e : Traced E ε α) :=
  ofExcept (fun _ heq => by cases heq) fun _ heq => Except.error.inj heq ▸ h

theorem emit {event : E} (h : allowed event) (hends : ends event = none) :
    Ensures allowed (fun _ => True) ends quiet (Traced.emit event : Traced E ε PUnit) where
  events := fun _ hmem => by
    rw [List.mem_singleton.mp hmem]
    exact h
  result := fun _ _ => trivial
  ended := fun _ hmem e he => by
    rw [List.mem_singleton.mp hmem, hends] at he
    cases he
  error := fun _ heq => by cases heq

/-- An event that ends the computation, and its error. -/
theorem stop {event : E} {e : ε} (h : allowed event) (hends : ends event = some e) :
    Ensures allowed post ends quiet
      (Traced.emit event >>= fun _ => Traced.raise e : Traced E ε α) where
  events := fun _ hmem => by
    rw [List.mem_singleton.mp hmem]
    exact h
  result := fun _ heq => by cases heq
  ended := fun _ hmem e' he => by
    rw [List.mem_singleton.mp hmem, hends] at he
    cases he
    rfl
  error := fun _ heq => by
    cases heq
    exact Or.inr ⟨event, List.mem_cons_self, hends⟩

theorem bind {x : Traced E ε α} {f : α → Traced E ε β} (hx : Ensures allowed post ends quiet x)
    (hf : ∀ a, post a → Ensures allowed post' ends quiet (f a)) :
    Ensures allowed post' ends quiet (x >>= f) := by
  cases hresult : x.result with
  | error e =>
    rw [bind_of_error hresult]
    refine ⟨hx.events, fun _ heq => (by cases heq), fun event hmem e' he => ?_,
      fun _ heq => (by cases heq; exact hx.error e hresult)⟩
    have hended := hx.ended event hmem e' he
    rw [hresult] at hended
    cases hended
    rfl
  | ok a =>
    have hrest := hf a (hx.result a hresult)
    rw [bind_of_ok hresult]
    refine ⟨fun event hmem => ?_, hrest.result, fun event hmem e he => ?_, fun e he => ?_⟩
    · rcases List.mem_append.mp hmem with hx' | hf'
      · exact hx.events event hx'
      · exact hrest.events event hf'
    · rcases List.mem_append.mp hmem with hx' | hf'
      · have hended := hx.ended event hx' e he
        rw [hresult] at hended
        cases hended
      · exact hrest.ended event hf' e he
    · refine (hrest.error e he).imp_right ?_
      rintro ⟨event, hmem, hends⟩
      exact ⟨event, List.mem_append_right _ hmem, hends⟩

theorem mapM {f : α → Traced E ε β} (hf : ∀ a, Ensures allowed post' ends quiet (f a))
    (items : List α) :
    Ensures allowed (fun bs => ∀ b ∈ bs, post' b) ends quiet (items.mapM f) := by
  induction items with
  | nil =>
    rw [List.mapM_nil]
    exact pure fun b hb => absurd hb List.not_mem_nil
  | cons item items ih =>
    rw [List.mapM_cons]
    refine bind (hf item) fun b hb => bind ih fun bs hbs => pure ?_
    exact List.forall_mem_cons.mpr ⟨hb, hbs⟩

end Ensures

end Traced
