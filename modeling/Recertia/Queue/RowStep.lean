import Recertia.Queue.RunQueue

/-! What a call may do to one row of `run_queue`. -/
namespace Recertia.Queue
open Transition
variable {P : Type*}

/-- The claim that a call presents. -/
def Call.presents : Call P → Option (Claim P)
  | .heartbeatClaim c | .markRunning c | .finish c _ _ | .requeue c _ _ => some c
  | _ => none

/-- The call enqueues the item of this key. -/
def Db.enqueues (db : Db P) (r : Request P) (key : Key) : Bool :=
  match r.call with
  | .enqueue item replaceTerminal =>
    decide (key = item.key) && (db.enqueue r.cfg r.now item replaceTerminal).2.isOk
  | _ => false

/-- The row of `key` before and behind a call. -/
inductive RowStep (db : Db P) (r : Request P) (key : Key) :
    Option (Row P) → Option (Row P) → Prop
  | keep (old : Option (Row P)) (henq : db.enqueues r key = false) : RowStep db r key old old
  | insert {new : Row P} (henq : db.enqueues r key = true) (hstatus : new.status = .queued)
      (hattempt : new.attempt = 0) : RowStep db r key none (some new)
  | replace {item : QueueItem P} {old new : Row P} (hcall : r.call = .enqueue item true)
      (hkey : key = item.key) (henq : db.enqueues r key = true)
      (hterminal : old.status.terminal = true) (hstatus : new.status = .queued)
      (htoken : new.claimToken = old.claimToken) (hattempt : new.attempt = 0) :
      RowStep db r key (some old) (some new)
  | claim {worker : String} {old new : Row P} (hcall : r.call = .claim worker key)
      (hclaimable : db.claimable r.now key old = true) (hstatus : new.status = .claimed)
      (htoken : new.claimToken = old.claimToken + 1) (hattempt : new.attempt = old.attempt)
      (hmax : new.maxAttempts = old.maxAttempts) (hby : new.claimedBy = some worker) :
      RowStep db r key (some old) (some new)
  | held {claim : Claim P} {old new : Row P} (hcall : r.call.presents = some claim)
      (hkey : claim.key = key) (hheld : old.claimToken = claim.claimToken)
      (hflight : old.status.inFlight = true) (htoken : new.claimToken = old.claimToken)
      (hattempt : new.attempt = old.attempt) (hmax : new.maxAttempts = old.maxAttempts)
      (hby : new.status.inFlight = true → new.claimedBy = old.claimedBy) :
      RowStep db r key (some old) (some new)
  | cancel {tenant runId kind : String} {old : Row P}
      (hcall : r.call = .requestCancel tenant runId kind) :
      RowStep db r key (some old) (some { old with cancelRequested := true })
  | reap {alive : Int → Bool} {old : Row P} (hcall : r.call = .reconcileOrphans alive)
      (hflight : old.status.inFlight = true) (pid : Option Int)
      (hdead : pidAlive alive pid = false) :
      RowStep db r key (some old)
        (some (reap r.now ⟨key, old.attempt, old.maxAttempts, pid⟩ old))

theorem enqueues_eq_false {db : Db P} {r : Request P}
    (h : ∀ item replaceTerminal, r.call ≠ .enqueue item replaceTerminal) (key : Key) :
    db.enqueues r key = false := by
  unfold Db.enqueues
  split
  · rename_i hcall
    exact absurd hcall (h _ _)
  · rfl

theorem tenantId_eq {value tenant : String} (h : tenantId value = some tenant) :
    tenant = value := by
  unfold tenantId at h
  split at h
  · cases h
  · split at h
    · exact (Option.some.inj h).symm
    · cases h

theorem holds_iff {claim : Claim P} {fromStatus : List Status} {key : Key} {row : Row P} :
    holds claim fromStatus key row = true ↔
      key = claim.key ∧ row.claimToken = claim.claimToken ∧ row.status ∈ fromStatus := by
  simp only [holds, Bool.and_eq_true, decide_eq_true_eq, List.contains_iff_mem, and_assoc]

theorem inFlight_of_mem {status : Status} {fromStatus : List Status}
    (hfrom : fromStatus ⊆ [.claimed, .running]) (h : status ∈ fromStatus) :
    status.inFlight = true := by
  have hmem := hfrom h
  simp only [List.mem_cons, List.not_mem_nil, or_false] at hmem
  rcases hmem with rfl | rfl <;> rfl

theorem terminal_of_inFlight {status : Status} (h : status.inFlight = true) :
    status.terminal = false := by
  cases status <;> first | rfl | cases h

theorem presents_not_enqueue {call : Call P} {claim : Claim P}
    (h : call.presents = some claim) (item : QueueItem P) (replaceTerminal : Bool) :
    call ≠ .enqueue item replaceTerminal := by
  rintro rfl
  cases h

/-- A statement under the claim's guard, for the calls that present a claim. -/
theorem rowStep_held {db : Db P} {r : Request P} {claim : Claim P}
    (hcall : r.call.presents = some claim) {fromStatus : List Status}
    (hfrom : fromStatus ⊆ [.claimed, .running]) (f : Row P → Row P)
    (hf : ∀ row, (f row).claimToken = row.claimToken ∧ (f row).attempt = row.attempt ∧
      (f row).maxAttempts = row.maxAttempts ∧
      ((f row).status.inFlight = true → (f row).claimedBy = row.claimedBy)) (key : Key) :
    RowStep db r key (db.runQueue.get? key)
      ((db.runQueue.update (holds claim fromStatus) f).get? key) := by
  have henq : db.enqueues r key = false := enqueues_eq_false (presents_not_enqueue hcall) key
  rw [Table.get?_update]
  cases hrow : db.runQueue.get? key with
  | none => exact .keep none henq
  | some old =>
    by_cases hheld : holds claim fromStatus key old = true
    · obtain ⟨hkey, hclaim, hmem⟩ := holds_iff.mp hheld
      rw [Option.map_some, if_pos hheld]
      obtain ⟨htoken, hattempt, hmax, hby⟩ := hf old
      exact .held hcall hkey.symm hclaim (inFlight_of_mem hfrom hmem) htoken hattempt hmax hby
    · rw [Option.map_some, if_neg hheld]
      exact .keep (some old) henq

/-- `_transition` writes `run_queue` and nothing else, whether it returns or raises. -/
theorem transition_fst (now : Int) (claim : Claim P) (status : Status)
    (errorCode : Option String) (fromStatus : List Status) (db : Db P) :
    (db.transition now claim status errorCode fromStatus).1 = { db with
      runQueue := db.runQueue.update (holds claim fromStatus)
        (transitioned now status errorCode) } := by
  unfold Db.transition
  dsimp only
  split
  · rfl
  · split
    · rfl
    · split <;> rfl
    · rfl

theorem requeue_fst (now : Int) (claim : Claim P) (delay : Int) (errorCode : String) (db : Db P) :
    (db.requeue now claim delay errorCode).1 = { db with
      runQueue := db.runQueue.update (holds claim [.claimed, .running])
        (requeued (now + max 0 delay) errorCode) } := by
  unfold Db.requeue
  dsimp only
  split <;> rfl

/-- What the transaction of `enqueue` commits. -/
theorem put_ok {cfg : Settings} {key : Key} {row : Row P} {replaceTerminal : Bool}
    {db db' : Db P} (h : db.put cfg key row replaceTerminal = .ok db') :
    (db.runQueue.get? key = none ∧
      db' = { db with runQueue := db.runQueue.insertOrIgnore key row }) ∨
    ∃ old, db.runQueue.get? key = some old ∧ old.status.terminal = true ∧
      replaceTerminal = true ∧
      db' = { db with runQueue := db.runQueue.update (fun k _ => k = key) (replaced row) } := by
  unfold Db.put at h
  cases hrow : db.runQueue.get? key with
  | none =>
    simp only [hrow] at h
    split at h
    · cases h
    · exact Or.inl ⟨rfl, (Except.ok.inj h).symm⟩
  | some old =>
    simp only [hrow] at h
    split at h
    · rename_i hterminal
      obtain ⟨hreplace, hold⟩ := Bool.and_eq_true_iff.mp hterminal
      split at h
      · cases h
      · exact Or.inr ⟨old, rfl, hold, hreplace, (Except.ok.inj h).symm⟩
    · cases h

/-- A call of `enqueue` that returns has written the row of its item; one that raises has at
most written the rows of its tenant. -/
theorem enqueue_cases (cfg : Settings) (now : Int) (item : QueueItem P) (replaceTerminal : Bool)
    (db : Db P) :
    (∃ e, (db.enqueue cfg now item replaceTerminal).2 = .error e ∧
      ((db.enqueue cfg now item replaceTerminal).1 = db ∨
        (db.enqueue cfg now item replaceTerminal).1 = db.ensureTenant cfg item.tenantId)) ∨
    ∃ db', (db.ensureTenant cfg item.tenantId).put cfg item.key (item.row cfg now)
        replaceTerminal = .ok db' ∧
      db.enqueue cfg now item replaceTerminal = (db', .ok ()) := by
  unfold Db.enqueue
  split
  · exact Or.inl ⟨_, rfl, Or.inl rfl⟩
  · rename_i tenant htenant
    split
    · exact Or.inl ⟨_, rfl, Or.inl rfl⟩
    · simp only [tenantId_eq htenant]
      split
      · rename_i db' hput
        exact Or.inr ⟨db', hput, rfl⟩
      · exact Or.inl ⟨_, rfl, Or.inr rfl⟩

theorem rowStep_enqueue {db : Db P} {r : Request P} {item : QueueItem P} {replaceTerminal : Bool}
    (hcall : r.call = .enqueue item replaceTerminal) (key : Key) :
    RowStep db r key (db.runQueue.get? key)
      ((db.enqueue r.cfg r.now item replaceTerminal).1.runQueue.get? key) := by
  rcases enqueue_cases r.cfg r.now item replaceTerminal db with
    ⟨e, herror, hdb⟩ | ⟨db', hput, hok⟩
  · have henq : db.enqueues r key = false := by
      simp [Db.enqueues, hcall, herror, Except.isOk, Except.toBool]
    have hkeep : (db.enqueue r.cfg r.now item replaceTerminal).1.runQueue = db.runQueue := by
      rcases hdb with hdb | hdb <;> rw [hdb]
      rfl
    rw [hkeep]
    exact .keep _ henq
  · have henq : db.enqueues r key = decide (key = item.key) := by
      simp [Db.enqueues, hcall, hok, Except.isOk, Except.toBool]
    rw [hok]
    rcases put_ok hput with ⟨hnone, rfl⟩ | ⟨old, hold, hterminal, rfl, rfl⟩
    · show RowStep db r key _ ((db.runQueue.insertOrIgnore item.key _).get? key)
      have hnone' : db.runQueue.get? item.key = none := hnone
      rw [Table.get?_insertOrIgnore, hnone', Option.getD_none]
      by_cases hkey : key = item.key
      · rw [if_pos hkey, hkey, hnone']
        exact .insert (by rw [← hkey, henq, decide_eq_true hkey]) rfl rfl
      · rw [if_neg hkey]
        exact .keep _ (by rw [henq, decide_eq_false hkey])
    · show RowStep db r key _
        ((db.runQueue.update (fun k _ => k = item.key) (replaced _)).get? key)
      have hold' : db.runQueue.get? item.key = some old := hold
      rw [Table.get?_update]
      by_cases hkey : key = item.key
      · subst hkey
        rw [hold', Option.map_some, if_pos (decide_eq_true rfl)]
        exact .replace hcall rfl (by rw [henq, decide_eq_true rfl]) hterminal rfl rfl rfl
      · have hsame : (db.runQueue.get? key).map
            (fun v => if decide (key = item.key) = true then replaced (item.row r.cfg r.now) v else v) =
            db.runQueue.get? key := by
          simp [hkey]
        rw [hsame]
        exact .keep _ (by rw [henq, decide_eq_false hkey])

/-! The loop of `reconcile_orphans` -/

theorem mem_inFlightRows {db : Db P} {row : Key × Row P} (h : row ∈ db.inFlightRows) :
    db.runQueue.get? row.1 = some row.2 ∧ row.2.status.inFlight = true := by
  obtain ⟨hmem, hflight⟩ := List.mem_filter.mp h
  exact ⟨Table.get?_eq_some.mpr hmem, hflight⟩

theorem orphans_nodup (db : Db P) :
    ((db.inFlightRows.map db.orphanOf).map Orphan.key).Nodup := by
  rw [List.map_map]
  exact db.runQueue.nodup.sublist (List.Sublist.map _ List.filter_sublist)

theorem get?_reapOrphan (now : Int) (orphan : Orphan) (db : Db P) (key : Key) :
    (db.reapOrphan now orphan).runQueue.get? key = (db.runQueue.get? key).map fun row =>
      if key = orphan.key ∧ row.status.inFlight = true then reap now orphan row else row := by
  unfold Db.reapOrphan
  rw [Table.get?_update]
  simp only [Bool.and_eq_true, decide_eq_true_eq]

/-- Each row meets the orphan of its key, if there is one. -/
theorem get?_foldl_reapOrphan (now : Int) {orphans : List Orphan}
    (hnodup : (orphans.map Orphan.key).Nodup) (db : Db P) (key : Key) :
    ((orphans.foldl (fun db orphan => db.reapOrphan now orphan) db).runQueue.get? key =
        db.runQueue.get? key ∧ ∀ orphan ∈ orphans, orphan.key ≠ key) ∨
    ∃ orphan ∈ orphans, orphan.key = key ∧
      (orphans.foldl (fun db orphan => db.reapOrphan now orphan) db).runQueue.get? key =
        (db.reapOrphan now orphan).runQueue.get? key := by
  induction orphans generalizing db with
  | nil => exact Or.inl ⟨rfl, fun orphan h => by cases h⟩
  | cons first rest ih =>
    rw [List.map_cons, List.nodup_cons] at hnodup
    obtain ⟨hnew, hrest⟩ := hnodup
    rw [List.foldl_cons]
    by_cases hkey : first.key = key
    · refine Or.inr ⟨first, List.mem_cons_self, hkey, ?_⟩
      rcases ih hrest (db.reapOrphan now first) with ⟨hsame, -⟩ | ⟨orphan, hmem, heq, -⟩
      · exact hsame
      · have hin : first.key ∈ rest.map Orphan.key :=
          List.mem_map.mpr ⟨orphan, hmem, heq.trans hkey.symm⟩
        exact absurd hin hnew
    · have hfirst : ∀ db : Db P,
          (db.reapOrphan now first).runQueue.get? key = db.runQueue.get? key := by
        intro db
        have hne : ¬ key = first.key := fun h => hkey h.symm
        rw [get?_reapOrphan]
        simp [hne]
      rcases ih hrest (db.reapOrphan now first) with ⟨hsame, hnone⟩ | ⟨orphan, hmem, heq, hreap⟩
      · refine Or.inl ⟨hsame.trans (hfirst db), fun orphan hmem => ?_⟩
        rcases List.mem_cons.mp hmem with rfl | hmem
        · exact hkey
        · exact hnone orphan hmem
      · refine Or.inr ⟨orphan, List.mem_cons_of_mem _ hmem, heq, hreap.trans ?_⟩
        rw [get?_reapOrphan, get?_reapOrphan now orphan db, hfirst db]

theorem rowStep_reconcile {db : Db P} {r : Request P} {alive : Int → Bool}
    (hcall : r.call = .reconcileOrphans alive) (key : Key) :
    RowStep db r key (db.runQueue.get? key)
      ((db.reconcileOrphans r.now alive).runQueue.get? key) := by
  have henq : db.enqueues r key = false := enqueues_eq_false (by simp [hcall]) key
  unfold Db.reconcileOrphans
  have hnodup := (orphans_nodup db).sublist
    (List.Sublist.map Orphan.key (List.filter_sublist (p := fun o => !pidAlive alive o.pid)))
  rcases get?_foldl_reapOrphan r.now hnodup db key with ⟨hsame, -⟩ | ⟨orphan, hmem, rfl, hreap⟩
  · rw [hsame]
    exact .keep _ henq
  · obtain ⟨horphan, hdead⟩ := List.mem_filter.mp hmem
    obtain ⟨⟨key, row⟩, hrow, rfl⟩ := List.mem_map.mp horphan
    obtain ⟨hget, hflight⟩ := mem_inFlightRows hrow
    have hget' : db.runQueue.get? (db.orphanOf (key, row)).key = some row := hget
    rw [hreap, get?_reapOrphan, hget', Option.map_some, if_pos ⟨rfl, hflight⟩]
    exact .reap hcall hflight _ (by simpa [Db.orphanOf] using hdead)

/-! All calls -/

theorem rowStep_take {db : Db P} {r : Request P} {worker : String} {pick : Key} {row : Row P}
    (hcall : r.call = .claim worker pick) (hrow : db.runQueue.get? pick = some row)
    (hclaimable : db.claimable r.now pick row = true) (key : Key) :
    RowStep db r key (db.runQueue.get? key)
      ((db.take r.cfg r.now worker pick).runQueue.get? key) := by
  have henq : ∀ key, db.enqueues r key = false := enqueues_eq_false (by simp [hcall])
  unfold Db.take
  rw [Table.get?_update]
  by_cases hkey : key = pick
  · subst hkey
    have hqueued : row.status = .queued := by
      simp only [Db.claimable, Bool.and_eq_true, decide_eq_true_eq] at hclaimable
      exact hclaimable.1.1
    rw [hrow, Option.map_some, if_pos (by simp [hqueued])]
    exact .claim hcall hclaimable rfl rfl rfl rfl rfl
  · have hsame : ∀ f : Row P → Row P, (db.runQueue.get? key).map
        (fun v => if (decide (key = pick) && decide (v.status = .queued)) = true then f v else v) =
        db.runQueue.get? key := by
      intro f
      simp [hkey]
    rw [hsame]
    exact .keep _ (henq key)

/-- A claim takes a row that may be picked, or changes nothing. -/
theorem claimOne_cases {cfg : Settings} {now : Int} {worker : String} {pick : Key} {db : Db P}
    {result : Db P × Option (Claim P)} (h : db.claimOne cfg now worker pick = some result) :
    result = (db, none) ∨
    ∃ row, db.runQueue.get? pick = some row ∧ db.picks now (pick, row) = true ∧
      result.1 = db.take cfg now worker pick ∧
      result.2 = some ⟨pick, row.claimToken + 1, row.attempt, row.payload⟩ := by
  unfold Db.claimOne at h
  split at h
  · exact Or.inl (Option.some.inj h).symm
  · split at h
    · exact Or.inl (Option.some.inj h).symm
    · split at h
      · cases h
      · rename_i row hrow
        split at h
        · rename_i hpicks
          cases Option.some.inj h
          exact Or.inr ⟨row, hrow, hpicks, rfl, rfl⟩
        · cases h

theorem picks_iff {db : Db P} {now : Int} {pick : Key × Row P} :
    db.picks now pick = true ↔ db.claimable now pick.1 pick.2 = true ∧
      ∀ other ∈ db.candidates now, db.sortsUpTo pick other = true := by
  simp only [Db.picks, Bool.and_eq_true, List.all_eq_true]

theorem rowStep_cancel {db : Db P} {r : Request P} {tenant runId kind : String}
    (hcall : r.call = .requestCancel tenant runId kind) (key : Key) :
    RowStep db r key (db.runQueue.get? key)
      ((db.requestCancel tenant runId kind).1.runQueue.get? key) := by
  have henq : db.enqueues r key = false := enqueues_eq_false (by simp [hcall]) key
  unfold Db.requestCancel
  split
  · exact .keep _ henq
  · rw [Table.get?_update]
    cases db.runQueue.get? key with
    | none => exact .keep _ henq
    | some old =>
      rw [Option.map_some]
      split
      · exact .cancel hcall
      · exact .keep _ henq

theorem rowStep_same {db db' : Db P} {r : Request P}
    (hcall : ∀ item replaceTerminal, r.call ≠ .enqueue item replaceTerminal)
    (hsame : db'.runQueue = db.runQueue) (key : Key) :
    RowStep db r key (db.runQueue.get? key) (db'.runQueue.get? key) := by
  rw [hsame]
  exact .keep _ (enqueues_eq_false hcall key)

/-- What a call does to a row. -/
theorem serve_row {db db' : Db P} {r : Request P} (h : db.serve r = some db') (key : Key) :
    RowStep db r key (db.runQueue.get? key) (db'.runQueue.get? key) := by
  have hboth : [Status.claimed, .running] ⊆ [.claimed, .running] := List.Subset.refl _
  have hclaimed : [Status.claimed] ⊆ [.claimed, .running] := by simp
  unfold Db.serve at h
  cases hcall : r.call with
  | enqueue item replaceTerminal =>
    rw [hcall] at h
    cases h
    exact rowStep_enqueue hcall key
  | claim worker pick =>
    rw [hcall] at h
    obtain ⟨result, hclaim, rfl⟩ := Option.map_eq_some_iff.mp h
    rcases claimOne_cases hclaim with rfl | ⟨row, hrow, hpicks, htake, -⟩
    · exact .keep _ (enqueues_eq_false (by simp [hcall]) key)
    · rw [htake]
      exact rowStep_take hcall hrow (picks_iff.mp hpicks).1 key
  | heartbeatClaim claim =>
    rw [hcall] at h
    cases h
    exact rowStep_held (by rw [hcall]; rfl) hboth (fun row => { row with heartbeatAt := some r.now })
      (fun _ => ⟨rfl, rfl, rfl, fun _ => rfl⟩) key
  | markRunning claim =>
    rw [hcall] at h
    cases h
    show RowStep db r key _ ((db.transition r.now claim _ _ _).1.runQueue.get? key)
    rw [transition_fst]
    exact rowStep_held (by rw [hcall]; rfl) hclaimed (transitioned _ _ _)
      (fun _ => ⟨rfl, rfl, rfl, fun _ => rfl⟩) key
  | finish claim status errorCode =>
    rw [hcall] at h
    cases h
    show RowStep db r key _ ((db.transition r.now claim _ _ _).1.runQueue.get? key)
    rw [transition_fst]
    exact rowStep_held (by rw [hcall]; rfl) hboth (transitioned _ _ _)
      (fun _ => ⟨rfl, rfl, rfl, fun _ => rfl⟩) key
  | requeue claim delay errorCode =>
    rw [hcall] at h
    cases h
    rw [requeue_fst]
    exact rowStep_held (by rw [hcall]; rfl) hboth (requeued _ _)
      (fun _ => ⟨rfl, rfl, rfl, fun h => nomatch h⟩) key
  | requestCancel tenant runId kind =>
    rw [hcall] at h
    cases h
    exact rowStep_cancel hcall key
  | reconcileOrphans alive =>
    rw [hcall] at h
    cases h
    exact rowStep_reconcile hcall key
  | registerWorker workerId capacity hostname pid =>
    rw [hcall] at h
    cases h
    exact rowStep_same (by simp [hcall]) rfl key
  | heartbeatWorker workerId =>
    rw [hcall] at h
    cases h
    exact rowStep_same (by simp [hcall]) rfl key
  | readLimits tenant =>
    rw [hcall] at h
    cases h
    refine rowStep_same (by simp [hcall]) ?_ key
    cases tenantId tenant <;> rfl
  | setMaxInFlight tenant maxInFlight =>
    rw [hcall] at h
    cases h
    refine rowStep_same (by simp [hcall]) ?_ key
    unfold Db.setMaxInFlight
    cases tenantId tenant <;> rfl
  | setMaintenance mode =>
    rw [hcall] at h
    cases h
    exact rowStep_same (by simp [hcall]) rfl key

end Recertia.Queue
