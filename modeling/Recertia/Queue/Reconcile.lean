import Recertia.Queue.RowStep
import Mathlib.Logic.Function.Basic

/-! `reconcile_orphans` statement by statement, while other processes use the queue: the
`SELECT` and each `UPDATE` commit on their own, and each pid is probed in between. -/
namespace Recertia.Queue
open Transition
variable {P : Type*}

/-- A selected row that `reconcile_orphans` has still to look at. -/
structure Seen where
  orphan : Orphan
  /-- the token at the `SELECT`, which the code does not read -/
  token : Int

/-- A `reconcile_orphans` under way. -/
structure Scan where
  todo : List Seen := []
  /-- the pid of the first row has been found dead -/
  condemned : Bool := false

/-- The database, the processes that run and the reconcilers. Processes are numbered, as the
system gives their pids again. -/
structure World (P : Type*) where
  db : Db P
  live : List ℕ := []
  pid : ℕ → Int := fun _ => 0
  spawned : ℕ := 0
  /-- the ids that a process has registered -/
  workerIds : ℕ → List String := fun _ => []
  /-- the process that made the present claim of a row -/
  claimant : Key → Option ℕ := fun _ => none
  scans : ℕ → Scan := fun _ => {}

inductive Label (P : Type*)
  | spawn (pid : Int)
  | exit (process : ℕ)
  | register (process : ℕ) (now : Int) (workerId : String) (capacity : Int) (hostname : String)
  | claim (process : ℕ) (cfg : Settings) (now : Int) (workerId : String) (pick : Key)
  /-- any other call, by whomever, of a claim that may be stale -/
  | call (r : Request P)
  | select (reconciler : ℕ)
  | probe (reconciler : ℕ)
  | update (reconciler : ℕ) (now : Int)

/-- The calls that have no label of their own. -/
def Call.isPlain : Call P → Bool
  | .claim .. | .reconcileOrphans .. | .registerWorker .. => false
  | _ => true

namespace World

def seenRows (db : Db P) : List Seen :=
  db.inFlightRows.map fun row => ⟨db.orphanOf row, row.2.claimToken⟩

/-- `os.kill(pid, 0)` -/
def hasPid (w : World P) (pid : Int) : Bool := w.live.any fun p => w.pid p = pid

def setScan (w : World P) (reconciler : ℕ) (scan : Scan) : World P :=
  { w with scans := Function.update w.scans reconciler scan }

def step (w : World P) : Label P → Option (World P)
  | .spawn pid =>
    if w.hasPid pid then none
    else some { w with
      live := w.spawned :: w.live, pid := Function.update w.pid w.spawned pid
      spawned := w.spawned + 1, workerIds := Function.update w.workerIds w.spawned [] }
  | .exit process => some { w with live := w.live.filter fun p => p ≠ process }
  | .register process now workerId capacity hostname =>
    if process ∈ w.live then
      some { w with
        db := w.db.registerWorker now workerId capacity hostname (w.pid process)
        workerIds := Function.update w.workerIds process (workerId :: w.workerIds process) }
    else none
  | .claim process cfg now workerId pick =>
    if process ∈ w.live ∧ workerId ∈ w.workerIds process then
      (w.db.claimOne cfg now workerId pick).map fun result =>
        { w with
          db := result.1
          claimant := match result.2 with
            | some claim => Function.update w.claimant claim.key (some process)
            | none => w.claimant }
    else none
  | .call r => if r.call.isPlain then (w.db.serve r).map fun db => { w with db } else none
  | .select reconciler =>
    if (w.scans reconciler).todo.isEmpty then some (w.setScan reconciler ⟨seenRows w.db, false⟩)
    else none
  | .probe reconciler =>
    match w.scans reconciler with
    | ⟨first :: rest, false⟩ =>
      some (w.setScan reconciler
        (if pidAlive w.hasPid first.orphan.pid then ⟨rest, false⟩ else ⟨first :: rest, true⟩))
    | _ => none
  | .update reconciler now =>
    match w.scans reconciler with
    | ⟨first :: rest, true⟩ =>
      some { w.setScan reconciler ⟨rest, false⟩ with db := w.db.reapOrphan now first.orphan }
    | _ => none

end World

def reconcileSystem (P : Type*) : System (World P) (Label P) where
  step := World.step

/-- The row meets its reconciler out of flight or under the token it was selected with, and no
process registers the worker id of another that runs. -/
def undisturbed (w : World P) : Label P → Bool
  | .register process _ workerId _ _ =>
    w.live.all fun p => p = process || !(w.workerIds p).contains workerId
  | .update reconciler _ =>
    (w.scans reconciler).todo.head?.all fun first =>
      (w.db.runQueue.get? first.orphan.key).all fun row =>
        !row.status.inFlight || row.claimToken = first.token
  | _ => true

/-- No row in flight is set to `queued` or `dead` while the process that claimed it runs. -/
def LiveClaimsKept (w w' : World P) : Prop :=
  ∀ key row row', w.db.runQueue.get? key = some row → w'.db.runQueue.get? key = some row' →
    row.status.inFlight = true → row'.status = .queued ∨ row'.status = .dead →
    ∀ p, w.claimant key = some p → p ∉ w.live

def AttemptsKept (w w' : World P) : Prop :=
  ∀ key row row', w.db.runQueue.get? key = some row → w'.db.runQueue.get? key = some row' →
    row.attempt ≤ row'.attempt

/-- No `UPDATE` of a reconciler revokes a live claim, and nothing but an `enqueue` sets an
attempt counter back. -/
def Safe (w : World P) (l : Label P) (w' : World P) : Prop :=
  (∀ reconciler now, l = .update reconciler now → LiveClaimsKept w w') ∧
  ((∀ r item replaceTerminal, l = .call r → r.call ≠ .enqueue item replaceTerminal) →
    AttemptsKept w w')

/-! What a row keeps -/

/-- A row of an unchanged token that is in flight was so before, under the same claim. -/
structure Kept (old new : Row P) : Prop where
  token_le : old.claimToken ≤ new.claimToken
  same : new.status.inFlight = true → new.claimToken = old.claimToken →
    old.status.inFlight = true ∧ new.attempt = old.attempt ∧ new.claimedBy = old.claimedBy

theorem Kept.refl (row : Row P) : Kept row row := ⟨Int.le_refl _, fun h _ => ⟨h, rfl, rfl⟩⟩

theorem reap_not_inFlight (now : Int) (orphan : Orphan) (row : Row P) :
    (reap now orphan row).status.inFlight = false := by
  unfold reap
  split <;> rfl

theorem reap_claimToken (now : Int) (orphan : Orphan) (row : Row P) :
    (reap now orphan row).claimToken = row.claimToken := by
  unfold reap
  split <;> rfl

theorem kept_reap (now : Int) (orphan : Orphan) (row : Row P) : Kept row (reap now orphan row) := by
  refine ⟨Int.le_of_eq (reap_claimToken now orphan row).symm, fun h _ => ?_⟩
  rw [reap_not_inFlight] at h
  cases h

theorem RowStep.kept {db : Db P} {r : Request P} {key : Key} {old : Row P}
    {new : Option (Row P)} (h : RowStep db r key (some old) new) :
    ∃ row', new = some row' ∧ Kept old row' := by
  cases h with
  | keep => exact ⟨old, rfl, .refl old⟩
  | replace _ _ _ _ hstatus htoken =>
    refine ⟨_, rfl, Int.le_of_eq htoken.symm, fun h => ?_⟩
    rw [hstatus] at h
    cases h
  | claim _ _ _ htoken => exact ⟨_, rfl, by omega, fun _ h => by omega⟩
  | held _ _ _ hflight htoken hattempt _ hby =>
    exact ⟨_, rfl, Int.le_of_eq htoken.symm, fun h _ => ⟨hflight, hattempt, hby h⟩⟩
  | cancel => exact ⟨_, rfl, Int.le_refl _, fun h _ => ⟨h, rfl, rfl⟩⟩
  | reap => exact ⟨_, rfl, kept_reap _ _ _⟩

/-- What every step keeps of the world. -/
structure Evolves (w w' : World P) : Prop where
  rows : ∀ key row, w.db.runQueue.get? key = some row →
    ∃ row', w'.db.runQueue.get? key = some row' ∧ Kept row row'
  claimant : ∀ key row row', w.db.runQueue.get? key = some row →
    w'.db.runQueue.get? key = some row' → row'.claimToken = row.claimToken →
    w'.claimant key = w.claimant key
  live : ∀ p ∈ w'.live, p < w.spawned → p ∈ w.live
  pid : ∀ p < w.spawned, w'.pid p = w.pid p

theorem rows_serve {db db' : Db P} {r : Request P} (h : db.serve r = some db') (key : Key)
    (row : Row P) (hrow : db.runQueue.get? key = some row) :
    ∃ row', db'.runQueue.get? key = some row' ∧ Kept row row' := by
  have hstep := serve_row h key
  rw [hrow] at hstep
  exact hstep.kept

/-- A claim of a process, seen as a call. -/
theorem serve_of_claimOne {db : Db P} {cfg : Settings} {now : Int} {worker : String} {pick : Key}
    {result : Db P × Option (Claim P)} (h : db.claimOne cfg now worker pick = some result) :
    db.serve ⟨cfg, now, .claim worker pick⟩ = some result.1 := by
  show (db.claimOne cfg now worker pick).map Prod.fst = some result.1
  rw [h]
  rfl

theorem get?_take {db : Db P} {cfg : Settings} {now : Int} {worker : String} {pick : Key}
    {row : Row P} (hrow : db.runQueue.get? pick = some row) (hqueued : row.status = .queued) :
    (db.take cfg now worker pick).runQueue.get? pick = some { row with
      status := .claimed, claimedBy := some worker, claimToken := row.claimToken + 1
      heartbeatAt := some now } := by
  unfold Db.take
  rw [Table.get?_update, hrow, Option.map_some, if_pos (by simp [hqueued])]

theorem queued_of_picks {db : Db P} {now : Int} {pick : Key} {row : Row P}
    (h : db.picks now (pick, row) = true) : row.status = .queued := by
  have hclaimable : db.claimable now pick row = true := (picks_iff.mp h).1
  simp only [Db.claimable, Bool.and_eq_true, decide_eq_true_eq] at hclaimable
  exact hclaimable.1.1

/-- What a step can do. -/
inductive World.Moves (w : World P) : Label P → World P → Prop
  | spawned {pid : Int} (hfree : w.hasPid pid = false) :
      Moves w (.spawn pid) { w with
        live := w.spawned :: w.live, pid := Function.update w.pid w.spawned pid
        spawned := w.spawned + 1, workerIds := Function.update w.workerIds w.spawned [] }
  | exited {process : ℕ} :
      Moves w (.exit process) { w with live := w.live.filter fun p => p ≠ process }
  | registered {process : ℕ} {now : Int} {workerId : String} {capacity : Int} {hostname : String}
      (hlive : process ∈ w.live) :
      Moves w (.register process now workerId capacity hostname) { w with
        db := w.db.registerWorker now workerId capacity hostname (w.pid process)
        workerIds := Function.update w.workerIds process (workerId :: w.workerIds process) }
  | passed {process : ℕ} {cfg : Settings} {now : Int} {workerId : String} {pick : Key}
      (hlive : process ∈ w.live) (hid : workerId ∈ w.workerIds process)
      (hserve : w.db.serve ⟨cfg, now, .claim workerId pick⟩ = some w.db) :
      Moves w (.claim process cfg now workerId pick) w
  | claimed {process : ℕ} {cfg : Settings} {now : Int} {workerId : String} {pick : Key}
      {row : Row P} (hlive : process ∈ w.live) (hid : workerId ∈ w.workerIds process)
      (hserve : w.db.serve ⟨cfg, now, .claim workerId pick⟩
        = some (w.db.take cfg now workerId pick))
      (hrow : w.db.runQueue.get? pick = some row)
      (hrow' : (w.db.take cfg now workerId pick).runQueue.get? pick = some { row with
        status := .claimed, claimedBy := some workerId, claimToken := row.claimToken + 1
        heartbeatAt := some now }) :
      Moves w (.claim process cfg now workerId pick) { w with
        db := w.db.take cfg now workerId pick
        claimant := Function.update w.claimant pick (some process) }
  | called {r : Request P} {db : Db P} (hplain : r.call.isPlain = true)
      (hserve : w.db.serve r = some db) : Moves w (.call r) { w with db }
  | selected {reconciler : ℕ} (hempty : (w.scans reconciler).todo.isEmpty = true) :
      Moves w (.select reconciler) (w.setScan reconciler ⟨seenRows w.db, false⟩)
  | spared {reconciler : ℕ} {first : Seen} {rest : List Seen}
      (hscan : w.scans reconciler = ⟨first :: rest, false⟩)
      (halive : pidAlive w.hasPid first.orphan.pid = true) :
      Moves w (.probe reconciler) (w.setScan reconciler ⟨rest, false⟩)
  | condemned {reconciler : ℕ} {first : Seen} {rest : List Seen}
      (hscan : w.scans reconciler = ⟨first :: rest, false⟩)
      (hdead : pidAlive w.hasPid first.orphan.pid = false) :
      Moves w (.probe reconciler) (w.setScan reconciler ⟨first :: rest, true⟩)
  | updated {reconciler : ℕ} {now : Int} {first : Seen} {rest : List Seen}
      (hscan : w.scans reconciler = ⟨first :: rest, true⟩) :
      Moves w (.update reconciler now)
        { w.setScan reconciler ⟨rest, false⟩ with db := w.db.reapOrphan now first.orphan }

theorem moves_claim {w w' : World P} {process : ℕ} {cfg : Settings} {now : Int}
    {workerId : String} {pick : Key} (h : w.step (.claim process cfg now workerId pick) = some w') :
    w.Moves (.claim process cfg now workerId pick) w' := by
  simp only [World.step] at h
  split at h
  · rename_i hguard
    obtain ⟨result, hclaim, rfl⟩ := Option.map_eq_some_iff.mp h
    have hserve := serve_of_claimOne hclaim
    rcases claimOne_cases hclaim with rfl | ⟨row, hrow, hpicks, htake, hresult⟩
    · exact .passed hguard.1 hguard.2 hserve
    · simp only [hresult, htake] at hserve ⊢
      exact .claimed hguard.1 hguard.2 hserve hrow (get?_take hrow (queued_of_picks hpicks))
  · cases h

theorem moves_of_step {w w' : World P} {l : Label P} (h : w.step l = some w') : w.Moves l w' := by
  cases l with
  | spawn pid =>
    simp only [World.step] at h
    split at h
    · cases h
    · rename_i hfree
      obtain rfl := Option.some.inj h
      exact .spawned (Bool.eq_false_iff.mpr hfree)
  | exit process =>
    obtain rfl := Option.some.inj h
    exact .exited
  | register process now workerId capacity hostname =>
    simp only [World.step] at h
    split at h
    · rename_i hlive
      obtain rfl := Option.some.inj h
      exact .registered hlive
    · cases h
  | claim process cfg now workerId pick => exact moves_claim h
  | call r =>
    simp only [World.step] at h
    split at h
    · rename_i hplain
      obtain ⟨db, hserve, rfl⟩ := Option.map_eq_some_iff.mp h
      exact .called hplain hserve
    · cases h
  | select reconciler =>
    simp only [World.step] at h
    split at h
    · rename_i hempty
      obtain rfl := Option.some.inj h
      exact .selected hempty
    · cases h
  | probe reconciler =>
    simp only [World.step] at h
    split at h
    · rename_i first rest hscan
      obtain rfl := Option.some.inj h
      cases hprobe : pidAlive w.hasPid first.orphan.pid with
      | true => exact .spared hscan hprobe
      | false => exact .condemned hscan hprobe
    · cases h
  | update reconciler now =>
    simp only [World.step] at h
    split at h
    · rename_i first rest hscan
      obtain rfl := Option.some.inj h
      exact .updated hscan
    · cases h

theorem evolves_step {w w' : World P} {l : Label P} (h : w.step l = some w') : Evolves w w' := by
  have hrefl (key : Key) (row : Row P) (hrow : w.db.runQueue.get? key = some row) :
      ∃ row', w.db.runQueue.get? key = some row' ∧ Kept row row' := ⟨row, hrow, .refl row⟩
  cases moves_of_step h with
  | spawned =>
    refine ⟨hrefl, fun _ _ _ _ _ _ => rfl, ?_, ?_⟩
    · intro p hp hlt
      rcases List.mem_cons.mp hp with rfl | hp
      · omega
      · exact hp
    · intro p hlt
      exact Function.update_of_ne (by omega) _ _
  | exited =>
    exact ⟨hrefl, fun _ _ _ _ _ _ => rfl, fun p hp _ => (List.mem_filter.mp hp).1, fun _ _ => rfl⟩
  | registered | selected | spared | condemned =>
    exact ⟨hrefl, fun _ _ _ _ _ _ => rfl, fun p hp _ => hp, fun _ _ => rfl⟩
  | passed hlive hid hserve | called hplain hserve =>
    exact ⟨rows_serve hserve, fun _ _ _ _ _ _ => rfl, fun p hp _ => hp, fun _ _ => rfl⟩
  | claimed hlive hid hserve hrow hrow' =>
    refine ⟨rows_serve hserve, ?_, fun p hp _ => hp, fun _ _ => rfl⟩
    intro key old new hold hnew htoken
    refine Function.update_of_ne ?_ _ _
    -- The picked row has another token now.
    rintro rfl
    rw [hrow] at hold
    rw [hrow'] at hnew
    cases hold
    cases hnew
    dsimp only at htoken
    omega
  | updated =>
    refine ⟨?_, fun _ _ _ _ _ _ => rfl, fun p hp _ => hp, fun _ _ => rfl⟩
    intro key row hrow
    dsimp only
    rw [get?_reapOrphan, hrow, Option.map_some]
    split
    · exact ⟨_, rfl, kept_reap _ _ _⟩
    · exact ⟨_, rfl, .refl row⟩

/-! The invariant -/

/-- What a selected row says as long as its token stands. -/
def SeenOk (w : World P) (s : Seen) : Prop :=
  ∃ row, w.db.runQueue.get? s.orphan.key = some row ∧ s.token ≤ row.claimToken ∧
    (row.status.inFlight = true → row.claimToken = s.token →
      row.attempt = s.orphan.attempt ∧
      ∀ p, w.claimant s.orphan.key = some p → p ∈ w.live → s.orphan.pid = some (w.pid p))

/-- Nobody runs who holds the claim that a condemned row was selected with. -/
def CondemnedOk (w : World P) (s : Seen) : Prop :=
  ∀ row, w.db.runQueue.get? s.orphan.key = some row → row.status.inFlight = true →
    row.claimToken = s.token → ∀ p, w.claimant s.orphan.key = some p → p ∉ w.live

structure Inv (w : World P) : Prop where
  numbered : ∀ p ∈ w.live, p < w.spawned
  claimants : ∀ key p, w.claimant key = some p → p < w.spawned
  registered : ∀ p ∈ w.live, ∀ id ∈ w.workerIds p,
    (w.db.workers.get? id).map Worker.pid = some (w.pid p)
  claimed : ∀ key row p, w.db.runQueue.get? key = some row → row.status.inFlight = true →
    w.claimant key = some p → p ∈ w.live → ∃ id ∈ w.workerIds p, row.claimedBy = some id
  seen : ∀ reconciler, ∀ s ∈ (w.scans reconciler).todo, SeenOk w s
  condemned : ∀ reconciler s rest, w.scans reconciler = ⟨s :: rest, true⟩ → CondemnedOk w s

theorem SeenOk.evolves {w w' : World P} {s : Seen} (h : SeenOk w s) (hev : Evolves w w')
    (hclaimants : ∀ key p, w.claimant key = some p → p < w.spawned) : SeenOk w' s := by
  obtain ⟨row, hrow, hle, hsame⟩ := h
  obtain ⟨row', hrow', hkept⟩ := hev.rows _ _ hrow
  refine ⟨row', hrow', Int.le_trans hle hkept.token_le, fun hflight htoken => ?_⟩
  have htok : row'.claimToken = row.claimToken := by
    have hle' := hkept.token_le
    omega
  obtain ⟨hflight₀, hattempt, -⟩ := hkept.same hflight htok
  obtain ⟨hatt, hpid⟩ := hsame hflight₀ (htok ▸ htoken)
  refine ⟨hattempt.trans hatt, fun p hp hlive => ?_⟩
  rw [hev.claimant _ _ _ hrow hrow' htok] at hp
  have hlt := hclaimants _ _ hp
  rw [hpid p hp (hev.live p hlive hlt), hev.pid p hlt]

theorem CondemnedOk.evolves {w w' : World P} {s : Seen} (h : CondemnedOk w s)
    (hseen : SeenOk w s) (hev : Evolves w w')
    (hclaimants : ∀ key p, w.claimant key = some p → p < w.spawned) : CondemnedOk w' s := by
  obtain ⟨row, hrow, hle, -⟩ := hseen
  obtain ⟨row₁, hrow₁, hkept⟩ := hev.rows _ _ hrow
  intro row' hrow' hflight htoken p hp hlive
  rw [hrow₁] at hrow'
  cases hrow'
  have htok : row₁.claimToken = row.claimToken := by
    have hle' := hkept.token_le
    omega
  obtain ⟨hflight₀, -, -⟩ := hkept.same hflight htok
  rw [hev.claimant _ _ _ hrow hrow₁ htok] at hp
  have hlt := hclaimants _ _ hp
  exact h row hrow hflight₀ (htok ▸ htoken) p hp (hev.live p hlive hlt)

theorem numbered_step {w w' : World P} {l : Label P} (hinv : Inv w) (h : w.step l = some w') :
    (∀ p ∈ w'.live, p < w'.spawned) ∧ ∀ key p, w'.claimant key = some p → p < w'.spawned := by
  cases moves_of_step h with
  | spawned =>
    refine ⟨fun p hp => ?_, fun key p hp => Nat.lt_succ_of_lt (hinv.claimants key p hp)⟩
    rcases List.mem_cons.mp hp with rfl | hp
    · exact Nat.lt_succ_self _
    · exact Nat.lt_succ_of_lt (hinv.numbered p hp)
  | exited => exact ⟨fun p hp => hinv.numbered p (List.mem_filter.mp hp).1, hinv.claimants⟩
  | @claimed process _ _ _ pick _ hlive =>
    refine ⟨hinv.numbered, fun key p hp => ?_⟩
    have hp' : Function.update w.claimant pick (some process) key = some p := hp
    by_cases hkey : key = pick
    · rw [hkey, Function.update_self] at hp'
      cases hp'
      exact hinv.numbered process hlive
    · rw [Function.update_of_ne hkey] at hp'
      exact hinv.claimants key p hp'
  | registered | passed | called | selected | spared | condemned | updated =>
    exact ⟨hinv.numbered, hinv.claimants⟩

theorem enqueue_workers (cfg : Settings) (now : Int) (item : QueueItem P)
    (replaceTerminal : Bool) (db : Db P) :
    (db.enqueue cfg now item replaceTerminal).1.workers = db.workers := by
  rcases enqueue_cases cfg now item replaceTerminal db with
    ⟨e, -, hdb | hdb⟩ | ⟨db', hput, hok⟩
  · rw [hdb]
  · rw [hdb]
    rfl
  · rw [hok]
    rcases put_ok hput with ⟨-, rfl⟩ | ⟨old, -, -, -, rfl⟩ <;> rfl

/-- The calls without a label of their own leave the pid of every worker. -/
theorem serve_pids {db db' : Db P} {r : Request P} (hplain : r.call.isPlain = true)
    (h : db.serve r = some db') (id : String) :
    (db'.workers.get? id).map Worker.pid = (db.workers.get? id).map Worker.pid := by
  have hsame : db'.workers = db.workers →
      (db'.workers.get? id).map Worker.pid = (db.workers.get? id).map Worker.pid :=
    fun heq => by rw [heq]
  unfold Db.serve at h
  cases hcall : r.call with
  | claim | reconcileOrphans | registerWorker =>
    rw [hcall] at hplain
    cases hplain
  | heartbeatWorker workerId =>
    rw [hcall] at h
    cases h
    show ((db.workers.update _ _).get? id).map Worker.pid = _
    rw [Table.get?_update, Option.map_map]
    apply congrArg (fun f => Option.map f (db.workers.get? id))
    funext worker
    simp only [Function.comp_apply]
    split <;> rfl
  | enqueue item replaceTerminal =>
    rw [hcall] at h
    cases h
    exact hsame (enqueue_workers _ _ _ _ _)
  | markRunning claim | finish claim status errorCode =>
    rw [hcall] at h
    cases h
    apply hsame
    show (db.transition r.now claim _ _ _).1.workers = db.workers
    rw [transition_fst]
  | requeue claim delay errorCode =>
    rw [hcall] at h
    cases h
    apply hsame
    rw [requeue_fst]
  | requestCancel tenant runId kind =>
    rw [hcall] at h
    cases h
    apply hsame
    unfold Db.requestCancel
    split <;> rfl
  | readLimits tenant =>
    rw [hcall] at h
    cases h
    apply hsame
    cases tenantId tenant <;> rfl
  | setMaxInFlight tenant maxInFlight =>
    rw [hcall] at h
    cases h
    apply hsame
    unfold Db.setMaxInFlight
    split <;> rfl
  | heartbeatClaim | setMaintenance =>
    rw [hcall] at h
    cases h
    exact hsame rfl

/-- A process keeps its ids, and a running one has its own pid under each of them. -/
theorem registered_step {w w' : World P} {l : Label P} (hinv : Inv w) (h : w.step l = some w')
    (hquiet : undisturbed w l = true) :
    ∀ p ∈ w'.live, ∀ id ∈ w'.workerIds p,
      (w'.db.workers.get? id).map Worker.pid = some (w'.pid p) := by
  cases moves_of_step h with
  | @spawned pid =>
    intro p hp id hid
    rcases List.mem_cons.mp hp with rfl | hp
    · have hnone : id ∈ Function.update w.workerIds w.spawned [] w.spawned := hid
      rw [Function.update_self] at hnone
      cases hnone
    · have hne : p ≠ w.spawned := Nat.ne_of_lt (hinv.numbered p hp)
      have hid' : id ∈ Function.update w.workerIds w.spawned [] p := hid
      rw [Function.update_of_ne hne] at hid'
      show _ = some (Function.update w.pid w.spawned pid p)
      rw [Function.update_of_ne hne]
      exact hinv.registered p hp id hid'
  | exited => exact fun p hp => hinv.registered p (List.mem_filter.mp hp).1
  | @registered process _ workerId =>
    intro p hp id hid
    have hother : ∀ q ∈ w.live, q ≠ process → workerId ∉ w.workerIds q := by
      intro q hq hne hmem
      have hq' := List.all_eq_true.mp hquiet q hq
      simp [hne, hmem] at hq'
    have hid' : id ∈ Function.update w.workerIds process
        (workerId :: w.workerIds process) p := hid
    show ((w.db.workers.upsert workerId _ _).get? id).map Worker.pid = some (w.pid p)
    rw [Table.get?_upsert]
    by_cases hp' : p = process
    · rw [hp', Function.update_self] at hid'
      by_cases hworker : id = workerId
      · rw [if_pos hworker, hp']
        cases w.db.workers.get? workerId <;> rfl
      · rw [if_neg hworker]
        rcases List.mem_cons.mp hid' with heq | hid'
        · exact absurd heq hworker
        · exact hinv.registered p hp id (hp' ▸ hid')
    · rw [Function.update_of_ne hp'] at hid'
      have hne : id ≠ workerId := fun heq => hother p hp hp' (heq ▸ hid')
      rw [if_neg hne]
      exact hinv.registered p hp id hid'
  | called hplain hserve =>
    intro p hp id hid
    exact (serve_pids hplain hserve id).trans (hinv.registered p hp id hid)
  | passed | claimed | selected | spared | condemned | updated => exact hinv.registered

/-- A row in flight that no claim has just taken was in flight before. -/
theorem inFlight_before {db : Db P} {r : Request P} {key : Key} {old : Option (Row P)}
    {new : Row P} (h : RowStep db r key old (some new)) (hflight : new.status.inFlight = true)
    (hcall : ∀ worker, r.call ≠ .claim worker key) :
    ∃ row, old = some row ∧ row.status.inFlight = true ∧ new.claimedBy = row.claimedBy := by
  cases h with
  | keep => exact ⟨new, rfl, hflight, rfl⟩
  | insert _ hstatus =>
    rw [hstatus] at hflight
    cases hflight
  | replace _ _ _ _ hstatus =>
    rw [hstatus] at hflight
    cases hflight
  | claim hclaim => exact absurd hclaim (hcall _)
  | held _ _ _ hold _ _ _ hby => exact ⟨_, rfl, hold, hby hflight⟩
  | cancel => exact ⟨_, rfl, hflight, rfl⟩
  | reap =>
    rw [reap_not_inFlight] at hflight
    cases hflight

/-- A row in flight is claimed under an id of its claimant. -/
theorem claimed_step {w w' : World P} {l : Label P} (hinv : Inv w) (h : w.step l = some w') :
    ∀ key row p, w'.db.runQueue.get? key = some row → row.status.inFlight = true →
      w'.claimant key = some p → p ∈ w'.live → ∃ id ∈ w'.workerIds p, row.claimedBy = some id := by
  cases moves_of_step h with
  | spawned =>
    intro key row p hrow hflight hp hlive
    have hne : p ≠ w.spawned := Nat.ne_of_lt (hinv.claimants key p hp)
    have hlive' : p ∈ w.live := (List.mem_cons.mp hlive).resolve_left hne
    obtain ⟨id, hid, hby⟩ := hinv.claimed key row p hrow hflight hp hlive'
    refine ⟨id, ?_, hby⟩
    show id ∈ Function.update w.workerIds w.spawned [] p
    rwa [Function.update_of_ne hne]
  | exited =>
    intro key row p hrow hflight hp hlive
    exact hinv.claimed key row p hrow hflight hp (List.mem_filter.mp hlive).1
  | @registered process _ workerId =>
    intro key row p hrow hflight hp hlive
    obtain ⟨id, hid, hby⟩ := hinv.claimed key row p hrow hflight hp hlive
    refine ⟨id, ?_, hby⟩
    show id ∈ Function.update w.workerIds process (workerId :: w.workerIds process) p
    by_cases hp' : p = process
    · rw [hp', Function.update_self]
      exact List.mem_cons_of_mem _ (hp' ▸ hid)
    · rwa [Function.update_of_ne hp']
  | @claimed process _ _ workerId pick row hrunning hid hserve hrow hrow' =>
    intro key new p hnew hflight hp hlive
    have hp' : Function.update w.claimant pick (some process) key = some p := hp
    by_cases hkey : key = pick
    · rw [hkey, Function.update_self] at hp'
      cases hp'
      rw [hkey, hrow'] at hnew
      cases hnew
      exact ⟨workerId, hid, rfl⟩
    · rw [Function.update_of_ne hkey] at hp'
      have hstep := serve_row hserve key
      rw [hnew] at hstep
      obtain ⟨old, hold, hflight₀, hby⟩ := inFlight_before hstep hflight fun worker heq => by
        cases heq
        exact hkey rfl
      rw [hby]
      exact hinv.claimed key old p hold hflight₀ hp' hlive
  | called hplain hserve =>
    intro key new p hnew hflight hp hlive
    have hstep := serve_row hserve key
    rw [hnew] at hstep
    obtain ⟨old, hold, hflight₀, hby⟩ := inFlight_before hstep hflight fun worker heq => by
      rw [heq] at hplain
      cases hplain
    rw [hby]
    exact hinv.claimed key old p hold hflight₀ hp hlive
  | passed | selected | spared | condemned => exact hinv.claimed
  | updated =>
    intro key new p hnew hflight hp hlive
    dsimp only at hnew
    rw [get?_reapOrphan] at hnew
    obtain ⟨old, hold, hreap⟩ := Option.map_eq_some_iff.mp hnew
    split at hreap
    · rw [← hreap, reap_not_inFlight] at hflight
      cases hflight
    · rw [← hreap] at hflight ⊢
      exact hinv.claimed key old p hold hflight hp hlive

/-- The rows of a `SELECT` are in flight, and their pids are their claimants'. -/
theorem seenOk_of_select {w : World P} (hinv : Inv w) {s : Seen}
    (hs : s ∈ World.seenRows w.db) : SeenOk w s := by
  obtain ⟨⟨key, row⟩, hmem, rfl⟩ := List.mem_map.mp hs
  obtain ⟨hrow, hflight⟩ := mem_inFlightRows hmem
  refine ⟨row, hrow, Int.le_refl _, fun _ _ => ⟨rfl, fun p hp hlive => ?_⟩⟩
  obtain ⟨id, hid, hby⟩ := hinv.claimed key row p hrow hflight hp hlive
  show (row.claimedBy.bind w.db.workers.get?).map Worker.pid = some (w.pid p)
  rw [hby, Option.bind_some]
  exact hinv.registered p hlive id hid

/-- A dead pid is not the pid of a claimant that runs. -/
theorem condemnedOk_of_probe {w : World P} {s : Seen} (hseen : SeenOk w s)
    (hdead : pidAlive w.hasPid s.orphan.pid = false) : CondemnedOk w s := by
  obtain ⟨row, hrow, -, hsame⟩ := hseen
  intro row' hrow' hflight htoken p hp hlive
  rw [hrow] at hrow'
  cases hrow'
  rw [(hsame hflight htoken).2 p hp hlive] at hdead
  have hpid : w.hasPid (w.pid p) = true :=
    List.any_eq_true.mpr ⟨p, hlive, decide_eq_true rfl⟩
  rw [show pidAlive w.hasPid (some (w.pid p)) = w.hasPid (w.pid p) from rfl, hpid] at hdead
  cases hdead

/-- What a scan holds it held before, or it has just selected it; a row that is condemned has
just been probed or was condemned before. -/
structure ScanMoves (w : World P) (old new : Scan) : Prop where
  todo : ∀ s ∈ new.todo, s ∈ old.todo ∨ s ∈ World.seenRows w.db
  condemned : ∀ s rest, new = ⟨s :: rest, true⟩ → old = ⟨s :: rest, true⟩ ∨
    old = ⟨s :: rest, false⟩ ∧ pidAlive w.hasPid s.orphan.pid = false

theorem ScanMoves.refl (w : World P) (scan : Scan) : ScanMoves w scan scan :=
  ⟨fun _ hs => Or.inl hs, fun _ _ heq => Or.inl heq⟩

theorem scanMoves_setScan {w : World P} {r : ℕ} {scan : Scan}
    (h : ScanMoves w (w.scans r) scan) (reconciler : ℕ) :
    ScanMoves w (w.scans reconciler) ((w.setScan r scan).scans reconciler) := by
  show ScanMoves w (w.scans reconciler) (Function.update w.scans r scan reconciler)
  by_cases hr : reconciler = r
  · rw [hr, Function.update_self]
    exact h
  · rw [Function.update_of_ne hr]
    exact .refl w _

theorem scan_step {w w' : World P} {l : Label P} (h : w.step l = some w') (reconciler : ℕ) :
    ScanMoves w (w.scans reconciler) (w'.scans reconciler) := by
  cases moves_of_step h with
  | spawned | exited | registered | passed | claimed | called => exact .refl w _
  | selected =>
    apply scanMoves_setScan
    refine ⟨fun s hs => Or.inr hs, fun s rest heq => ?_⟩
    exact Bool.noConfusion (congrArg Scan.condemned heq)
  | spared hscan | updated hscan =>
    apply scanMoves_setScan
    rw [hscan]
    exact ⟨fun s hs => Or.inl (List.mem_cons_of_mem _ hs), fun s rest heq => by cases heq⟩
  | condemned hscan hdead =>
    apply scanMoves_setScan
    rw [hscan]
    refine ⟨fun s hs => Or.inl hs, fun s rest heq => ?_⟩
    cases heq
    exact Or.inr ⟨rfl, hdead⟩

theorem inv_step {w w' : World P} {l : Label P} (hinv : Inv w) (h : w.step l = some w')
    (hquiet : undisturbed w l = true) : Inv w' := by
  have hev := evolves_step h
  obtain ⟨hnumbered, hclaimants⟩ := numbered_step hinv h
  refine ⟨hnumbered, hclaimants, registered_step hinv h hquiet, claimed_step hinv h, ?_, ?_⟩
  · intro reconciler s hs
    have hseen : SeenOk w s := by
      rcases (scan_step h reconciler).todo s hs with hold | hnew
      · exact hinv.seen reconciler s hold
      · exact seenOk_of_select hinv hnew
    exact hseen.evolves hev hinv.claimants
  · intro reconciler s rest hscan
    rcases (scan_step h reconciler).condemned s rest hscan with hold | ⟨hold, hdead⟩
    · have hseen : SeenOk w s := hinv.seen reconciler s (by rw [hold]; exact List.mem_cons_self)
      exact (hinv.condemned reconciler s rest hold).evolves hseen hev hinv.claimants
    · have hseen : SeenOk w s := hinv.seen reconciler s (by rw [hold]; exact List.mem_cons_self)
      exact (condemnedOk_of_probe hseen hdead).evolves hseen hev hinv.claimants

/-! Safety -/

theorem RowStep.attempt_le {db : Db P} {r : Request P} {key : Key} {old new : Row P}
    (hcall : ∀ item replaceTerminal, r.call ≠ .enqueue item replaceTerminal)
    (h : RowStep db r key (some old) (some new)) : old.attempt ≤ new.attempt := by
  cases h with
  | keep => exact Nat.le_refl _
  | replace hreplace => exact absurd hreplace (hcall _ _)
  | claim _ _ _ _ hattempt => exact Nat.le_of_eq hattempt.symm
  | held _ _ _ _ _ hattempt => exact Nat.le_of_eq hattempt.symm
  | cancel => exact Nat.le_refl _
  | reap =>
    unfold Queue.reap
    split
    · exact Nat.le_refl _
    · exact Nat.le_succ _

theorem attemptsKept_serve {w w' : World P} {r : Request P}
    (hcall : ∀ item replaceTerminal, r.call ≠ .enqueue item replaceTerminal)
    (h : w.db.serve r = some w'.db) : AttemptsKept w w' := by
  intro key row row' hrow hrow'
  have hstep := serve_row h key
  rw [hrow, hrow'] at hstep
  exact hstep.attempt_le hcall

theorem attemptsKept_same {w w' : World P} (h : w'.db.runQueue = w.db.runQueue) :
    AttemptsKept w w' := by
  intro key row row' hrow hrow'
  rw [h, hrow] at hrow'
  cases hrow'
  exact Nat.le_refl _

/-- An `UPDATE` that meets its row as selected. -/
theorem safe_update {w w' : World P} {reconciler : ℕ} {now : Int} (hinv : Inv w)
    (h : w.step (.update reconciler now) = some w')
    (hquiet : undisturbed w (.update reconciler now) = true) :
    LiveClaimsKept w w' ∧ AttemptsKept w w' := by
  cases moves_of_step h with
  | @updated _ _ first rest hscan =>
    have hseen : SeenOk w first :=
      hinv.seen reconciler first (by rw [hscan]; exact List.mem_cons_self)
    have htoken : ∀ row, w.db.runQueue.get? first.orphan.key = some row →
        row.status.inFlight = true → row.claimToken = first.token := by
      intro row hrow hflight
      simpa [undisturbed, hscan, hrow, hflight] using hquiet
    constructor
    · intro key row row' hrow hrow' hflight hstatus p hp
      have hreap : (w.db.reapOrphan now first.orphan).runQueue.get? key = some row' := hrow'
      rw [get?_reapOrphan, hrow, Option.map_some] at hreap
      split at hreap
      · rename_i hkey
        have hrow₁ : w.db.runQueue.get? first.orphan.key = some row := hkey.1 ▸ hrow
        exact hinv.condemned reconciler first rest hscan row hrow₁ hflight
          (htoken row hrow₁ hflight) p (hkey.1 ▸ hp)
      · cases hreap
        rcases hstatus with heq | heq <;> rw [heq] at hflight <;> cases hflight
    · intro key row row' hrow hrow'
      have hreap : (w.db.reapOrphan now first.orphan).runQueue.get? key = some row' := hrow'
      rw [get?_reapOrphan, hrow, Option.map_some] at hreap
      split at hreap
      · rename_i hkey
        have hrow₁ : w.db.runQueue.get? first.orphan.key = some row := hkey.1 ▸ hrow
        obtain ⟨row₂, hrow₂, -, hsame⟩ := hseen
        rw [hrow₁] at hrow₂
        cases hrow₂
        have hattempt := (hsame hkey.2 (htoken row hrow₁ hkey.2)).1
        cases hreap
        unfold reap
        split
        · exact Nat.le_refl _
        · show row.attempt ≤ first.orphan.attempt + 1
          omega
      · cases hreap
        exact Nat.le_refl _

theorem safe_step {w w' : World P} {l : Label P} (hinv : Inv w) (h : w.step l = some w')
    (hquiet : undisturbed w l = true) : Safe w l w' := by
  cases moves_of_step h with
  | updated =>
    obtain ⟨hlive, hattempts⟩ := safe_update hinv h hquiet
    exact ⟨fun _ _ _ => hlive, fun _ => hattempts⟩
  | passed hlive hid hserve | claimed hlive hid hserve =>
    exact ⟨fun _ _ heq => (by cases heq),
      fun _ => attemptsKept_serve (fun _ _ heq => (by cases heq)) hserve⟩
  | @called r db hplain hserve =>
    refine ⟨fun _ _ heq => (by cases heq), fun hcall => attemptsKept_serve (r := r) ?_ hserve⟩
    exact fun item replaceTerminal => hcall r item replaceTerminal rfl
  | spawned | exited | registered | selected | spared | condemned =>
    exact ⟨fun _ _ heq => (by cases heq), fun _ => attemptsKept_same rfl⟩

theorem inv_fresh : Inv (P := P) { db := Db.migrated P } where
  numbered p hp := by cases hp
  claimants key p hp := by cases hp
  registered p hp := by cases hp
  claimed key row p hrow := by cases hrow
  seen reconciler s hs := by cases hs
  condemned reconciler s rest hscan := by cases hscan

/-- In every run whose reconcilers meet the rows as they selected them, and whose processes do
not share worker ids while they run, no reconciler revokes a live claim and no attempt counter
is set back. -/
theorem undisturbed_reconcile_safe (ls : List (Label P))
    (hquiet : (reconcileSystem P).Along (fun w l _ => undisturbed w l = true)
      { db := Db.migrated P } ls) :
    (reconcileSystem P).Along Safe { db := Db.migrated P } ls :=
  System.along_of_invariant (fun _ _ _ hinv hstep hg => inv_step hinv hstep hg)
    (fun _ _ _ hinv hstep hg => safe_step hinv hstep hg) inv_fresh hquiet

/-- Worker 100 claims and dies; two reconcilers select its row and find it dead. -/
def twoReconcilers : List (Label Unit) :=
  let key : Key := ⟨"t1", "r1", "run"⟩
  [.call ⟨{}, 0, .enqueue ⟨"t1", "r1", "run", (), 0, 3, none, none⟩ false⟩,
   .spawn 100, .register 0 0 "host-100" 1 "host", .claim 0 {} 0 "host-100" key, .exit 0,
   .select 1, .probe 1, .select 2, .probe 2]

/-- Both update the row before anyone claims it again. -/
theorem undisturbed_reconcile_safe_twice :
    (reconcileSystem Unit).Along Safe { db := Db.migrated Unit }
      (twoReconcilers ++ [.update 2 1, .update 1 2]) :=
  undisturbed_reconcile_safe _ (System.along_of_check (by decide +kernel))

/-- The second one puts it back, and worker 200 claims it. -/
def staleSelect : List (Label Unit) :=
  twoReconcilers ++ [.update 2 1, .spawn 200, .register 1 2 "host-200" 1 "host",
    .claim 1 {} 5000000 "host-200" ⟨"t1", "r1", "run"⟩]

/-- Worker 200 dies as well; a third reconciler puts the row back, and worker 300 claims it. -/
def staleAttempt : List (Label Unit) :=
  staleSelect ++ [.exit 1, .select 3, .probe 3, .update 3 5000001,
    .spawn 300, .register 2 6000000 "host-300" 1 "host",
    .claim 2 {} 15000000 "host-300" ⟨"t1", "r1", "run"⟩]

/-- Two processes register the id of the embedded worker, the second one dies, and a reconciler
selects the row that the first has claimed. -/
def sharedWorkerId : List (Label Unit) :=
  [.call ⟨{}, 0, .enqueue ⟨"t1", "r1", "run", (), 0, 3, none, none⟩ false⟩,
   .spawn 100, .register 0 0 "embedded" 1 "host",
   .claim 0 {} 0 "embedded" ⟨"t1", "r1", "run"⟩,
   .spawn 200, .register 1 1 "embedded" 1 "host", .exit 1, .select 1, .probe 1]

/-- A row of a world: its status and attempt, and whether its claimant runs. -/
def World.view (w : World P) (key : Key) : Option (Status × ℕ × Bool) :=
  (w.db.runQueue.get? key).map fun row =>
    (row.status, row.attempt, (w.claimant key).any fun p => w.live.contains p)

theorem view_step (ls : List (Label Unit)) (l : Label Unit) (key : Key)
    (old new : Status × ℕ × Bool)
    (hview : ((reconcileSystem Unit).run { db := Db.migrated Unit } ls).bind (fun w =>
      (w.step l).map fun w' => (w.view key, w'.view key)) = some (some old, some new)) :
    ∃ w w' row row', (reconcileSystem Unit).run { db := Db.migrated Unit } ls = some w ∧
      (reconcileSystem Unit).step w l = some w' ∧ w.db.runQueue.get? key = some row ∧
      w'.db.runQueue.get? key = some row' ∧ (row.status, row.attempt) = (old.1, old.2.1) ∧
      (row'.status, row'.attempt) = (new.1, new.2.1) ∧
      (old.2.2 = true → ∃ p, w.claimant key = some p ∧ p ∈ w.live) := by
  obtain ⟨w, hrun, hstep⟩ := Option.bind_eq_some_iff.mp hview
  obtain ⟨w', hw', hviews⟩ := Option.map_eq_some_iff.mp hstep
  obtain ⟨hold, hnew⟩ := Prod.mk.inj hviews
  obtain ⟨row, hrow, rfl⟩ := Option.map_eq_some_iff.mp hold
  obtain ⟨row', hrow', rfl⟩ := Option.map_eq_some_iff.mp hnew
  refine ⟨w, w', row, row', hrun, hw', hrow, hrow', rfl, rfl, fun hlive => ?_⟩
  obtain ⟨p, hp, hmem⟩ := (Option.any_eq_true _ _).mp hlive
  exact ⟨p, hp, List.contains_iff_mem.mp hmem⟩

theorem not_safe_of_view {ls : List (Label Unit)} {reconciler : ℕ} {now : Int} (key : Key)
    (attempt attempt' : ℕ)
    (hview : ((reconcileSystem Unit).run { db := Db.migrated Unit } ls).bind (fun w =>
      (w.step (.update reconciler now)).map fun w' => (w.view key, w'.view key)) =
      some (some (.claimed, attempt, true), some (.queued, attempt', true))) :
    ¬ (reconcileSystem Unit).Along Safe { db := Db.migrated Unit }
      (ls ++ [.update reconciler now]) := by
  obtain ⟨w, w', row, row', hrun, hstep, hrow, hrow', hold, hnew, hlive⟩ :=
    view_step _ _ key _ _ hview
  obtain ⟨p, hp, hmem⟩ := hlive rfl
  apply System.not_along_snoc hrun hstep
  intro hsafe
  have hflight : row.status.inFlight = true := by
    rw [(Prod.mk.inj hold).1]
    rfl
  exact hsafe.1 reconciler now rfl key row row' hrow hrow' hflight
    (Or.inl (Prod.mk.inj hnew).1) p hp hmem

/-- Live claims are revoked behind a stale `SELECT` and under a shared worker id, and behind a
stale `SELECT` an attempt counter goes from 2 back to 1. -/
theorem reconcile_revokes_live_claims :
    ¬ (reconcileSystem Unit).Along Safe { db := Db.migrated Unit }
      (staleSelect ++ [.update 1 5000001]) ∧
    ¬ (reconcileSystem Unit).Along Safe { db := Db.migrated Unit }
      (sharedWorkerId ++ [.update 1 2]) ∧
    ¬ (reconcileSystem Unit).Along (fun w _ w' => AttemptsKept w w')
      { db := Db.migrated Unit } (staleAttempt ++ [.update 1 15000001]) := by
  refine ⟨?_, ?_, ?_⟩
  · exact not_safe_of_view ⟨"t1", "r1", "run"⟩ 1 1 (by decide +kernel)
  · exact not_safe_of_view ⟨"t1", "r1", "run"⟩ 0 1 (by decide +kernel)
  · obtain ⟨w, w', row, row', hrun, hstep, hrow, hrow', hold, hnew, -⟩ :=
      view_step staleAttempt (.update 1 15000001) ⟨"t1", "r1", "run"⟩ (.claimed, 2, true)
        (.queued, 1, true) (by decide +kernel)
    apply System.not_along_snoc hrun hstep
    intro hkept
    have hle : row.attempt ≤ row'.attempt := hkept _ row row' hrow hrow'
    have htwo : row.attempt = 2 := (Prod.mk.inj hold).2
    have hone : row'.attempt = 1 := (Prod.mk.inj hnew).2
    omega

end Recertia.Queue
