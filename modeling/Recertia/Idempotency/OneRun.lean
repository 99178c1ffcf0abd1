import Recertia.Idempotency.KeyStore

/-! Keys map to one run, over every interleaving of clients: a row is its last reserver's, a
complete row keeps its run id, and no two reservations are live within their leases. -/
namespace Recertia.Idempotency

open Transition

/-- Who wrote the row of each scope last, by a reservation or a takeover, and the run id of the
completion that its row has seen since. -/
structure History where
  reserver : KeyScope → Option ClientId
  completion : KeyScope → Option String

def History.empty : History := ⟨fun _ => none, fun _ => none⟩

/-- The history sees which reservations are granted, and which completions hit their row. -/
def see (ttl : Int) (w : World) (l : Label) (_ : World) (h : History) : History :=
  match l with
  | .reserve c scope requestHash chosen =>
    if (reserve ttl w.now chosen w.keys scope requestHash).2.lease.isSome then
      { reserver := Function.update h.reserver scope (some c)
        completion := Function.update h.completion scope none }
    else h
  | .complete c requestHash runId =>
    match w.holds c with
    | none => h
    | some hold =>
      if (w.keys.get? hold.scope).any (Row.heldBy requestHash hold.lease) then
        { h with completion := Function.update h.completion hold.scope (some runId) }
      else h
  | _ => h

/-- What the contract of the store promises of a step. -/
structure Lawful (ttl : Int) (m : World × History) (l : Label) (m' : World × History) : Prop where
  /-- a client writes no row that another one has reserved or taken over since -/
  fenced : ∀ c hold requestHash runId, m.1.holds c = some hold →
    l = .complete c requestHash runId ∨ l = .release c requestHash →
    m.2.reserver hold.scope ≠ some c →
    m'.1.keys.get? hold.scope = m.1.keys.get? hold.scope
  settled : ∀ scope row runId, m.1.keys.get? scope = some row → row.state = .complete runId →
    m'.1.now < row.expiresAt → m'.1.keys.get? scope = some row
  replayed : ∀ c scope requestHash chosen runId lease, l = .reserve c scope requestHash chosen →
    (reserve ttl m.1.now chosen m.1.keys scope requestHash).2 = ⟨.replay, runId, lease⟩ →
    runId.isSome = true ∧ m.2.completion scope = runId
  exclusive : ∀ c c' hold hold', m'.1.holds c = some hold → m'.1.holds c' = some hold' →
    hold.scope = hold'.scope → m'.1.now < hold.lease + leaseSeconds →
    m'.1.now < hold'.lease + leaseSeconds → c = c'

/-- What a row keeps of its reservation and its completion. -/
structure RowInv (ttl : Int) (w : World) (h : History) (scope : KeyScope) (row : Row) :
    Prop where
  created : row.createdAt ≤ w.now
  expires : row.expiresAt = row.createdAt + ttl
  completion : ∀ runId, row.state = .complete runId → h.completion scope = some runId

/-- A lease is not ahead of the clock, and while it lasts the row is there; the row with this
lease is the client's own. -/
structure HoldInv (w : World) (h : History) (c : ClientId) (hold : Hold) : Prop where
  granted : hold.lease ≤ w.now
  row : w.now < hold.lease + leaseSeconds →
    ∃ row, w.keys.get? hold.scope = some row ∧ row.createdAt = hold.lease
  own : ∀ row, w.keys.get? hold.scope = some row → row.createdAt = hold.lease →
    h.reserver hold.scope = some c

structure Inv (ttl : Int) (m : World × History) : Prop where
  rows : ∀ scope row, m.1.keys.get? scope = some row → RowInv ttl m.1 m.2 scope row
  holds : ∀ c hold, m.1.holds c = some hold → HoldInv m.1 m.2 c hold
  apart : ∀ c c' hold hold', m.1.holds c = some hold → m.1.holds c' = some hold' → c ≠ c' →
    hold.scope = hold'.scope →
    hold.lease + leaseSeconds ≤ hold'.lease ∨ hold'.lease + leaseSeconds ≤ hold.lease

/-- Two leases that are 30 seconds apart do not last at one time. -/
theorem Inv.exclusive {ttl : Int} {m : World × History} (h : Inv ttl m) {c c' : ClientId}
    {hold hold' : Hold} (hc : m.1.holds c = some hold) (hc' : m.1.holds c' = some hold')
    (hscope : hold.scope = hold'.scope) (hlive : m.1.now < hold.lease + leaseSeconds)
    (hlive' : m.1.now < hold'.lease + leaseSeconds) : c = c' := by
  by_contra hne
  have hgranted := (h.holds c hold hc).granted
  have hgranted' := (h.holds c' hold' hc').granted
  have hapart := h.apart c c' hold hold' hc hc' hne hscope
  omega

theorem inv_start (ttl now : Int) : Inv ttl (start now, History.empty) where
  rows := fun _ _ h => nomatch h
  holds := fun _ _ h => nomatch h
  apart := fun _ _ _ _ h => nomatch h

theorem inv_tick {ttl : Int} {w : World} {h : History} (hinv : Inv ttl (w, h)) (seconds : ℕ) :
    Inv ttl ({ w with now := w.now + seconds }, h) where
  rows := fun scope row hrow => by
    have hr := hinv.rows scope row hrow
    have hcreated := hr.created
    refine ⟨?_, hr.expires, hr.completion⟩
    dsimp only at hcreated ⊢
    omega
  holds := fun c hold hc => by
    have hh := hinv.holds c hold hc
    have hgranted := hh.granted
    refine ⟨?_, fun hlive => hh.row ?_, hh.own⟩
    · dsimp only at hgranted ⊢
      omega
    · dsimp only at hlive ⊢
      omega
  apart := hinv.apart

@[simp] theorem setHold_keys (w : World) (c : ClientId) (hold : Option Hold) :
    (setHold w c hold).keys = w.keys := rfl

@[simp] theorem setHold_now (w : World) (c : ClientId) (hold : Option Hold) :
    (setHold w c hold).now = w.now := rfl

@[simp] theorem setHold_self (w : World) (c : ClientId) (hold : Option Hold) :
    (setHold w c hold).holds c = hold := Function.update_self ..

theorem setHold_of_ne (w : World) {c c' : ClientId} (hold : Option Hold) (h : c' ≠ c) :
    (setHold w c hold).holds c' = w.holds c' := Function.update_of_ne h ..

theorem holds_of_drop {w : World} {c c' : ClientId} {hold : Hold}
    (h : (setHold w c none).holds c' = some hold) : c' ≠ c ∧ w.holds c' = some hold := by
  by_cases heq : c' = c
  · subst heq
    rw [setHold_self] at h
    cases h
  · rw [setHold_of_ne w none heq] at h
    exact ⟨heq, h⟩

/-- Giving a reservation up keeps the invariant. -/
theorem inv_drop {ttl : Int} {w : World} {h : History} (hinv : Inv ttl (w, h)) (c : ClientId) :
    Inv ttl (setHold w c none, h) := by
  have hbefore {c' : ClientId} {hold : Hold} (hc' : (setHold w c none).holds c' = some hold) :
      w.holds c' = some hold := (holds_of_drop hc').2
  exact ⟨fun scope row hrow => ⟨(hinv.rows scope row hrow).created,
      (hinv.rows scope row hrow).expires, (hinv.rows scope row hrow).completion⟩,
    fun c' hold hc' => ⟨(hinv.holds c' hold (hbefore hc')).granted,
      (hinv.holds c' hold (hbefore hc')).row, (hinv.holds c' hold (hbefore hc')).own⟩,
    fun c1 c2 hold1 hold2 h1 h2 => hinv.apart c1 c2 hold1 hold2 (hbefore h1) (hbefore h2)⟩

theorem inv_complete {ttl : Int} {w : World} {h : History} (hinv : Inv ttl (w, h)) {c : ClientId}
    {hold : Hold} (hc : w.holds c = some hold) (requestHash runId : String) (w'' : World) :
    Inv ttl ({ w with keys := (complete w.keys hold.scope requestHash runId hold.lease).1 },
      see ttl w (.complete c requestHash runId) w'' h) := by
  have hsee : see ttl w (.complete c requestHash runId) w'' h =
      if (w.keys.get? hold.scope).any (Row.heldBy requestHash hold.lease) then
        { h with completion := Function.update h.completion hold.scope (some runId) }
      else h := by
    simp only [see, hc]
  have hreserver : (see ttl w (.complete c requestHash runId) w'' h).reserver = h.reserver := by
    rw [hsee]
    split <;> rfl
  -- A row is as before, or held before and complete now.
  have hrow : ∀ {scope : KeyScope} {row' : Row},
      (complete w.keys hold.scope requestHash runId hold.lease).1.get? scope = some row' →
      ∃ row, w.keys.get? scope = some row ∧ row'.createdAt = row.createdAt ∧
        row'.expiresAt = row.expiresAt := by
    intro scope row' hrow'
    rw [complete_get?] at hrow'
    obtain ⟨row, hrow, rfl⟩ := Option.map_eq_some_iff.mp hrow'
    refine ⟨row, hrow, ?_, ?_⟩ <;> split <;> rfl
  refine ⟨fun scope row' hrow' => ?_, fun c' hold' hc' => ?_, hinv.apart⟩
  · obtain ⟨row, hbefore, hcreated, hexpires⟩ := hrow hrow'
    have hr := hinv.rows scope row hbefore
    refine ⟨hcreated ▸ hr.created, by rw [hexpires, hcreated]; exact hr.expires, ?_⟩
    intro recorded hstate
    rw [complete_get?, hbefore, Option.map_some, Option.some.injEq] at hrow'
    rw [hsee]
    by_cases hhit : scope = hold.scope ∧ row.heldBy requestHash hold.lease = true
    · rw [if_pos hhit] at hrow'
      subst hrow'
      obtain ⟨hscope, hheld⟩ := hhit
      subst hscope
      simp only [RowState.complete.injEq] at hstate
      rw [hbefore, Option.any_some, if_pos hheld, ← hstate]
      exact Function.update_self ..
    · rw [if_neg hhit] at hrow'
      subst hrow'
      have hcompletion := hr.completion recorded hstate
      split
      · rename_i hany
        have hne : scope ≠ hold.scope := by
          intro hscope
          subst hscope
          rw [hbefore, Option.any_some] at hany
          exact hhit ⟨rfl, hany⟩
        rw [← hcompletion]
        exact Function.update_of_ne hne ..
      · exact hcompletion
  · have hh := hinv.holds c' hold' hc'
    refine ⟨hh.granted, fun hlive => ?_, fun row' hrow' hlease => ?_⟩
    · obtain ⟨row, hbefore, hlease⟩ := hh.row hlive
      have hafter := complete_get? w.keys hold.scope requestHash runId hold.lease hold'.scope
      rw [hbefore, Option.map_some] at hafter
      exact ⟨_, hafter, by split <;> exact hlease⟩
    · obtain ⟨row, hbefore, hcreated, -⟩ := hrow hrow'
      rw [hreserver]
      exact hh.own row hbefore (hcreated ▸ hlease)

/-- A released row is the client's own. -/
theorem inv_release {ttl : Int} {w : World} {h : History} (hinv : Inv ttl (w, h)) {c : ClientId}
    {hold : Hold} (hc : w.holds c = some hold) (requestHash : String) :
    Inv ttl (setHold { w with keys := release w.keys hold.scope requestHash hold.lease } c none,
      h) := by
  have hrow : ∀ {scope : KeyScope} {row : Row},
      (release w.keys hold.scope requestHash hold.lease).get? scope = some row →
      w.keys.get? scope = some row := by
    intro scope row h'
    rw [release_get?, Option.filter_eq_some_iff] at h'
    exact h'.1
  refine ⟨fun scope row hrow' => ?_, fun c' hold' hc' => ?_, fun c1 c2 hold1 hold2 h1 h2 => ?_⟩
  · have hr := hinv.rows scope row (hrow hrow')
    exact ⟨hr.created, hr.expires, hr.completion⟩
  · obtain ⟨hne, hbefore⟩ := holds_of_drop hc'
    have hh := hinv.holds c' hold' hbefore
    refine ⟨hh.granted, fun hlive => ?_, fun row hrow' hlease => hh.own row (hrow hrow') hlease⟩
    obtain ⟨row, hget, hlease⟩ := hh.row hlive
    refine ⟨row, ?_, hlease⟩
    rw [setHold_keys, release_get?, Option.filter_eq_some_iff]
    refine ⟨hget, ?_⟩
    rw [Bool.not_eq_true', Bool.and_eq_false_iff, decide_eq_false_iff_not]
    by_contra hdeleted
    rw [not_or, not_not, Bool.not_eq_false] at hdeleted
    obtain ⟨hscope, hheld⟩ := hdeleted
    -- The row would be reserved by both clients.
    have hmine := (hinv.holds c hold hc).own row (hscope ▸ hget) (heldBy_iff.mp hheld).2.2
    have htheirs := hh.own row hget hlease
    rw [hscope, hmine] at htheirs
    exact hne (Option.some.inj htheirs).symm
  · exact hinv.apart c1 c2 hold1 hold2 (holds_of_drop h1).2 (holds_of_drop h2).2

theorem inv_refused {ttl : Int} {w : World} {h : History} (hinv : Inv ttl (w, h))
    (httl : leaseSeconds ≤ ttl) {keys : Keys} (hkeys : Refuses w.now w.keys keys) :
    Inv ttl ({ w with keys }, h) where
  rows := fun scope row hrow => by
    have hr := hinv.rows scope row (hkeys.back scope row hrow)
    exact ⟨hr.created, hr.expires, hr.completion⟩
  holds := fun c hold hc => by
    have hh := hinv.holds c hold hc
    refine ⟨hh.granted, fun hlive => ?_, fun row hrow => hh.own row (hkeys.back _ row hrow)⟩
    obtain ⟨row, hrow, hlease⟩ := hh.row hlive
    have hexpires := (hinv.rows _ row hrow).expires
    refine ⟨row, hkeys.keep _ row hrow ?_, hlease⟩
    dsimp only at hlive
    omega
  apart := hinv.apart

/-- When a lease is granted, every other one on the scope is 30 seconds old. -/
theorem late_of_granted {ttl : Int} {w : World} {h : History} (hinv : Inv ttl (w, h))
    (httl : leaseSeconds ≤ ttl) {keys : Keys} {scope : KeyScope}
    (hkeys : Grants ttl w.now w.keys keys scope) {c : ClientId} {hold : Hold}
    (hc : w.holds c = some hold) (hscope : hold.scope = scope) :
    hold.lease + leaseSeconds ≤ w.now := by
  by_contra hlive
  obtain ⟨row, hrow, hlease⟩ := (hinv.holds c hold hc).row (by dsimp only; omega)
  have hexpires := (hinv.rows _ row hrow).expires
  rw [hscope] at hrow
  have hlate := (hkeys.late row hrow (by omega)).2
  omega

theorem inv_granted {ttl : Int} {w : World} {h : History} (hinv : Inv ttl (w, h))
    (httl : leaseSeconds ≤ ttl) {c : ClientId} (hidle : w.holds c = none) {keys : Keys}
    {scope : KeyScope} (hkeys : Grants ttl w.now w.keys keys scope) :
    Inv ttl (setHold { w with keys } c (some ⟨scope, w.now⟩),
      { reserver := Function.update h.reserver scope (some c)
        completion := Function.update h.completion scope none }) := by
  obtain ⟨granted, hgranted, hpending, hcreated, hexpires⟩ := hkeys.row
  have hlate {c' : ClientId} {hold : Hold} (hc' : w.holds c' = some hold)
      (hscope : hold.scope = scope) : hold.lease + leaseSeconds ≤ w.now :=
    late_of_granted hinv httl hkeys hc' hscope
  have hseconds : leaseSeconds = 30 := rfl
  refine ⟨fun scope' row hrow => ?_, fun c' hold hc' => ?_, fun c1 c2 hold1 hold2 h1 h2 => ?_⟩
  · by_cases hscope : scope' = scope
    · subst hscope
      rw [setHold_keys, hgranted] at hrow
      cases hrow
      refine ⟨Int.le_of_eq hcreated, by rw [hexpires, hcreated], fun runId hcomplete => ?_⟩
      rw [hpending] at hcomplete
      cases hcomplete
    · have hr := hinv.rows scope' row (hkeys.back scope' row hscope hrow)
      refine ⟨hr.created, hr.expires, fun runId hcomplete => ?_⟩
      rw [← hr.completion runId hcomplete]
      exact Function.update_of_ne hscope ..
  · by_cases hclient : c' = c
    · subst hclient
      rw [setHold_self] at hc'
      cases hc'
      refine ⟨Int.le_refl _, fun _ => ⟨granted, hgranted, hcreated⟩, fun _ _ _ => ?_⟩
      exact Function.update_self ..
    · rw [setHold_of_ne _ _ hclient] at hc'
      have hh := hinv.holds c' hold hc'
      by_cases hscope : hold.scope = scope
      · have hold30 := hlate hc' hscope
        refine ⟨hh.granted, fun hlive => ?_, fun row hrow hlease => ?_⟩
        · dsimp only [setHold_now] at hlive
          omega
        · rw [setHold_keys, hscope, hgranted] at hrow
          cases hrow
          omega
      · refine ⟨hh.granted, fun hlive => ?_, fun row hrow hlease => ?_⟩
        · obtain ⟨row, hrow, hlease⟩ := hh.row hlive
          have hexp := (hinv.rows _ row hrow).expires
          refine ⟨row, hkeys.keep _ row hscope hrow ?_, hlease⟩
          dsimp only [setHold_now] at hlive
          omega
        · rw [← hh.own row (hkeys.back _ row hscope hrow) hlease]
          exact Function.update_of_ne hscope ..
  · intro hne hsame
    by_cases hc1 : c1 = c
    · subst hc1
      rw [setHold_self] at h1
      cases h1
      rw [setHold_of_ne _ _ (Ne.symm hne)] at h2
      exact Or.inr (hlate h2 hsame.symm)
    · rw [setHold_of_ne _ _ hc1] at h1
      by_cases hc2 : c2 = c
      · subst hc2
        rw [setHold_self] at h2
        cases h2
        exact Or.inl (hlate h1 hsame)
      · rw [setHold_of_ne _ _ hc2] at h2
        exact hinv.apart c1 c2 hold1 hold2 h1 h2 hne hsame

theorem inv_step {ttl : Int} (httl : leaseSeconds ≤ ttl) {m : World × History} {w' : World}
    {l : Label} (hinv : Inv ttl m) (hstep : (system ttl).step m.1 l = some w') :
    Inv ttl (w', see ttl m.1 l w' m.2) := by
  obtain ⟨w, h⟩ := m
  cases l with
  | tick seconds =>
    cases hstep
    exact inv_tick hinv seconds
  | reserve c scope requestHash chosen =>
    simp only [system, step] at hstep
    split at hstep
    · cases hstep
    · rename_i hidle
      have hspec := reserve_spec ttl w.now chosen w.keys scope requestHash
      cases hstep
      rcases hspec with ⟨hlease, hkeys⟩ | ⟨hlease, hkeys⟩
      · simp only [see, hlease, Option.map_none]
        exact inv_drop (inv_refused hinv httl hkeys) c
      · simp only [see, hlease, Option.map_some]
        exact inv_granted hinv httl hidle hkeys
  | complete c requestHash runId =>
    simp only [system, step] at hstep
    split at hstep
    · cases hstep
    · rename_i hold hc
      cases hstep
      exact inv_complete hinv hc requestHash runId _
  | release c requestHash =>
    simp only [system, step] at hstep
    split at hstep
    · cases hstep
    · rename_i hold hc
      cases hstep
      exact inv_release hinv hc requestHash
  | drop c =>
    cases hstep
    exact inv_drop hinv c

/-- A client whose row is another's changes nothing in it. -/
theorem heldBy_false_of_reserver {ttl : Int} {m : World × History} (hinv : Inv ttl m)
    {c : ClientId} {hold : Hold} {row : Row} (hc : m.1.holds c = some hold)
    (hother : m.2.reserver hold.scope ≠ some c) (hrow : m.1.keys.get? hold.scope = some row)
    (requestHash : String) : row.heldBy requestHash hold.lease = false := by
  by_contra hheld
  rw [Bool.not_eq_false] at hheld
  exact hother ((hinv.holds c hold hc).own row hrow (heldBy_iff.mp hheld).2.2)

theorem fenced_step {ttl : Int} {m : World × History} {w' : World} {l : Label} (hinv : Inv ttl m)
    (hstep : (system ttl).step m.1 l = some w') {c : ClientId} {hold : Hold}
    {requestHash runId : String} (hc : m.1.holds c = some hold)
    (hl : l = .complete c requestHash runId ∨ l = .release c requestHash)
    (hother : m.2.reserver hold.scope ≠ some c) :
    w'.keys.get? hold.scope = m.1.keys.get? hold.scope := by
  have hnot : ∀ row, m.1.keys.get? hold.scope = some row →
      row.heldBy requestHash hold.lease = false := fun row hrow =>
    heldBy_false_of_reserver hinv hc hother hrow requestHash
  rcases hl with rfl | rfl
  · simp only [system, step, hc] at hstep
    cases hstep
    rw [complete_get?]
    cases hrow : m.1.keys.get? hold.scope with
    | none => rfl
    | some row => simp [hnot row hrow]
  · simp only [system, step, hc] at hstep
    cases hstep
    rw [setHold_keys, release_get?]
    cases hrow : m.1.keys.get? hold.scope with
    | none => rfl
    | some row => simp [Option.filter, hnot row hrow]

/-- A complete row stays until it expires. -/
theorem settled_step {ttl : Int} {w w' : World} {l : Label}
    (hstep : (system ttl).step w l = some w') {scope : KeyScope} {row : Row} {runId : String}
    (hrow : w.keys.get? scope = some row) (hcomplete : row.state = .complete runId)
    (hlive : w'.now < row.expiresAt) : w'.keys.get? scope = some row := by
  have hnot (requestHash : String) (lease : Int) : row.heldBy requestHash lease = false := by
    simp [Row.heldBy, hcomplete]
  cases l with
  | tick seconds =>
    cases hstep
    exact hrow
  | reserve c scope' requestHash chosen =>
    simp only [system, step] at hstep
    split at hstep
    · cases hstep
    · have hspec := reserve_spec ttl w.now chosen w.keys scope' requestHash
      cases hstep
      rw [setHold_now] at hlive
      rcases hspec with ⟨-, hkeys⟩ | ⟨-, hkeys⟩
      · exact hkeys.keep scope row hrow hlive
      · refine hkeys.keep scope row ?_ hrow hlive
        intro hscope
        subst hscope
        have hpending := (hkeys.late row hrow hlive).1
        rw [hcomplete] at hpending
        cases hpending
  | complete c requestHash runId' =>
    simp only [system, step] at hstep
    split at hstep
    · cases hstep
    · cases hstep
      dsimp only
      rw [complete_get?, hrow]
      simp [hnot]
  | release c requestHash =>
    simp only [system, step] at hstep
    split at hstep
    · cases hstep
    · cases hstep
      rw [setHold_keys, release_get?, hrow]
      simp [Option.filter, hnot]
  | drop c =>
    cases hstep
    exact hrow

theorem replayed_of_inv {ttl : Int} {m : World × History} (hinv : Inv ttl m) {scope : KeyScope}
    {requestHash : String} {chosen : List KeyScope} {runId : Option String} {lease : Option Int}
    (h : (reserve ttl m.1.now chosen m.1.keys scope requestHash).2 = ⟨.replay, runId, lease⟩) :
    runId.isSome = true ∧ m.2.completion scope = runId := by
  have hkind := reserve_cases ttl m.1.now chosen m.1.keys scope requestHash
  rw [h] at hkind
  rcases hkind with ⟨-, -, hresult⟩ | ⟨row, -, -, -, -, -, hresult⟩ |
    ⟨row, recorded, hlive, -, hcomplete, -, hresult⟩ | ⟨row, -, -, hnot, -⟩
  · cases hresult
  · cases hresult
  · cases hresult
    have hrow := (liveRow_eq_some.mp hlive).1
    exact ⟨rfl, (hinv.rows scope row hrow).completion recorded hcomplete⟩
  · exact absurd rfl hnot

/-- For a time to live of at least one lease, every step of every run is lawful: whoever lost a
row to a takeover writes it no more, a complete row keeps its run id until it expires, a replay
answers with the run id of the completion, and at most one reservation of a scope is live within
its lease. -/
theorem keys_map_to_one_run {ttl : Int} (httl : leaseSeconds ≤ ttl) (now : Int)
    (ls : List Label) :
    ((system ttl).monitor (see ttl)).Along (Lawful ttl) (start now, History.empty) ls := by
  apply System.along_monitor_of_inductive (I := Inv ttl) _ _ (inv_start ttl now)
  · exact fun w h l w' hinv hnext => inv_step (m := (w, h)) httl hinv hnext
  · intro w h l w' hinv hnext
    have hinv' := inv_step (m := (w, h)) httl hinv hnext
    exact
      { fenced := fun c hold requestHash runId hc hl hother => fenced_step hinv hnext hc hl hother
        settled := fun scope row runId hrow hcomplete hlive =>
          settled_step hnext hrow hcomplete hlive
        replayed := fun c scope requestHash chosen runId lease _ h => replayed_of_inv hinv h
        exclusive := fun c c' hold hold' hc hc' hscope hlive hlive' =>
          Inv.exclusive hinv' hc hc' hscope hlive hlive' }

def stepKey : KeyScope := ⟨"acme", "prog", "build", "key-1"⟩

/-- A slow holder, a takeover, the holder's late completion and release, and a replay. -/
def slowHolder : List Label :=
  [.reserve 0 stepKey "body" [], .tick 30, .reserve 1 stepKey "body" [stepKey],
    .complete 0 "body" "run-a", .release 0 "body", .complete 1 "body" "run-b",
    .reserve 2 stepKey "body" []]

/-- The taker's run id is the one that stays. -/
theorem keys_map_to_one_run_slowHolder :
    ((system 60).run (start 0) slowHolder).map (fun w => w.keys.get? stepKey) =
        some (some ⟨"body", .complete "run-b", 30, 90⟩) ∧
      ((system 60).monitor (see 60)).Along (Lawful 60) (start 0, History.empty) slowHolder :=
  ⟨by decide +kernel, keys_map_to_one_run (by decide) 0 slowHolder⟩

end Recertia.Idempotency
