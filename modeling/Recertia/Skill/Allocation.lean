import Mathlib.Data.List.Nodup
import Recertia.Lib.Transition

/-! Version numbers of one skill: three operations that take them under the lock of the skill, by any
threads of any processes, each of which can end at any point. -/
namespace Recertia.Skill

open Transition

/-- The directory of the skill and its rows of `reservations`, and the numbers that allocations have
returned. A file is there before its payload is. -/
structure Versions (D : Type*) where
  /-- the numbers of the directories `v<n>` -/
  dirs : List ℕ
  /-- `version.json` by number -/
  files : ℕ → Option (Option D)
  reservations : List ℕ
  returned : List ℕ

/-- The two operations that take a new number. -/
inductive Allocating (D : Type*)
  | next
  | andWrite (doc : D)

inductive Allocation (D : Type*)
  | allocate (op : Allocating D)
  | writeExclusive (version : ℕ) (doc : D)

/-- On whose behalf `write_version` runs: with a reservation to delete, or with a number to return. -/
inductive Writer
  | exclusive | allocated
  deriving DecidableEq

/-- Where a thread stands. Those behind `waiting` hold the lock. -/
inductive Point (D : Type*)
  | idle
  | waiting (op : Allocation D)
  | begun (op : Allocating D)
  | selected (op : Allocating D) (reserved : List ℕ)
  | scanned (op : Allocating D) (n : ℕ)
  | inserted (n : ℕ)
  | committed (n : ℕ)
  | mkdir (writer : Writer) (n : ℕ) (doc : D)
  | create (writer : Writer) (n : ℕ) (doc : D)
  | fill (writer : Writer) (n : ℕ) (doc : D)
  | written (writer : Writer) (n : ℕ)

variable {D : Type*}

/-- `max([0, *existing, *reserved]) + 1` -/
def nextVersion (existing reserved : List ℕ) : ℕ := (existing ++ reserved).foldl max 0 + 1

def Versions.putFile (v : Versions D) (n : ℕ) (file : Option D) : Versions D :=
  { v with files := fun m => if m = n then some file else v.files m }

/-- The next instruction of the thread that holds the lock. An error goes to `idle`, as a return
does; a transaction that has not been committed leaves nothing. -/
def Versions.exec (v : Versions D) : Point D → Versions D × Point D
  | .idle => (v, .idle)
  | .waiting op => (v, .waiting op)
  | .begun op => (v, .selected op v.reservations)
  | .selected op reserved => (v, .scanned op (nextVersion v.dirs reserved))
  | .scanned .next n => (v, if n ∈ v.reservations then .idle else .inserted n)
  | .scanned (.andWrite doc) n => (v, .mkdir .allocated n doc)
  | .inserted n => ({ v with reservations := v.reservations ++ [n] }, .committed n)
  | .committed n => ({ v with returned := v.returned ++ [n] }, .idle)
  | .mkdir writer n doc =>
    ({ v with dirs := if n ∈ v.dirs then v.dirs else v.dirs ++ [n] }, .create writer n doc)
  | .create writer n doc =>
    match v.files n with
    | some _ => (v, .idle)
    | none => (v.putFile n none, .fill writer n doc)
  | .fill writer n doc => (v.putFile n (some doc), .written writer n)
  | .written .exclusive n => ({ v with reservations := v.reservations.filter (· ≠ n) }, .idle)
  | .written .allocated n => ({ v with returned := v.returned ++ [n] }, .idle)

/-- The first point under the lock. -/
def Allocation.enter : Allocation D → Point D
  | .allocate op => .begun op
  | .writeExclusive n doc => .mkdir .exclusive n doc

def Point.isIdle : Point D → Bool
  | .idle => true
  | _ => false

structure Allocator (D : Type*) where
  versions : Versions D
  lock : Option ℕ
  points : ℕ → Point D

def Allocator.goTo (a : Allocator D) (thread : ℕ) (point : Point D) : Allocator D :=
  { a with points := fun t => if t = thread then point else a.points t }

inductive AllocatorMove (D : Type*)
  | call (thread : ℕ) (op : Allocation D)
  | acquire (thread : ℕ)
  | go (thread : ℕ)
  /-- an exception, or the end of the process -/
  | abort (thread : ℕ)

/-- Any interleaving of the operations; the lock goes with the thread that holds it. -/
def allocator : System (Allocator D) (AllocatorMove D) where
  step a
    | .call thread op =>
      if (a.points thread).isIdle then some (a.goTo thread (.waiting op)) else none
    | .acquire thread =>
      match a.points thread, a.lock with
      | .waiting op, none => some { a.goTo thread op.enter with lock := some thread }
      | _, _ => none
    | .go thread =>
      if a.lock = some thread then
        let (versions, point) := a.versions.exec (a.points thread)
        let lock := if point.isIdle then none else some thread
        some { a.goTo thread point with versions, lock }
      else none
    | .abort thread =>
      let lock := if a.lock = some thread then none else a.lock
      some { a.goTo thread .idle with lock }

/-- A number that a new allocation leaves alone. -/
def Versions.Taken (v : Versions D) (n : ℕ) : Prop := n ∈ v.dirs ∨ n ∈ v.reservations

structure Versions.Ok (v : Versions D) : Prop where
  filed : ∀ n, v.files n ≠ none → n ∈ v.dirs
  taken : ∀ n ∈ v.returned, v.Taken n
  nodup : v.returned.Nodup

/-- What a thread knows of the number that it writes. -/
structure Versions.Writes (v : Versions D) (writer : Writer) (n : ℕ) : Prop where
  dir : n ∈ v.dirs
  fresh : writer = .allocated → n ∉ v.returned ∧ n ∉ v.reservations

/-- What holds of the files while a thread is at a point. -/
def Point.Holds (v : Versions D) : Point D → Prop
  | .idle => True
  | .waiting _ => True
  | .begun _ => True
  | .selected _ reserved => reserved = v.reservations
  | .scanned _ n => ∀ m, v.Taken m → m < n
  | .inserted n => ∀ m, v.Taken m → m < n
  | .committed n => n ∈ v.reservations ∧ n ∉ v.returned
  | .mkdir writer n _ => writer = .allocated → ∀ m, v.Taken m → m < n
  | .create writer n _ => v.Writes writer n
  | .fill writer n _ => v.Writes writer n ∧ v.files n = some none
  | .written writer n => v.Writes writer n

theorem lt_nextVersion {v : Versions D} {m : ℕ} (h : v.Taken m) :
    m < nextVersion v.dirs v.reservations := by
  have hle : ∀ (xs : List ℕ) (a : ℕ), a ≤ xs.foldl max a ∧ ∀ x ∈ xs, x ≤ xs.foldl max a := by
    intro xs
    induction xs with
    | nil => exact fun a => ⟨Nat.le_refl a, fun x hx => absurd hx List.not_mem_nil⟩
    | cons y ys ih =>
      intro a
      obtain ⟨hinit, hmem⟩ := ih (max a y)
      rw [List.foldl_cons]
      refine ⟨Nat.le_trans (Nat.le_max_left a y) hinit, fun x hx => ?_⟩
      rcases List.mem_cons.mp hx with rfl | hx
      · exact Nat.le_trans (Nat.le_max_right a x) hinit
      · exact hmem x hx
  exact Nat.lt_succ_of_le ((hle _ 0).2 m (List.mem_append.mpr h))

/-- A number that is taken and that nobody has got can be returned. -/
theorem Versions.Ok.returns {v : Versions D} (hok : v.Ok) {n : ℕ} (htaken : v.Taken n)
    (hfresh : n ∉ v.returned) : Versions.Ok { v with returned := v.returned ++ [n] } where
  filed := hok.filed
  taken := by
    intro m hm
    rcases List.mem_append.mp hm with hm | hm
    · exact hok.taken m hm
    · rw [List.mem_singleton.mp hm]
      exact htaken
  nodup := by
    refine List.nodup_append.mpr ⟨hok.nodup, List.nodup_singleton n, fun a ha b hb hab => ?_⟩
    rw [List.mem_singleton.mp hb] at hab
    exact hfresh (hab ▸ ha)

/-- An instruction keeps what the files and the thread promise. -/
theorem exec_ok {v : Versions D} {p : Point D} (hok : v.Ok) (hp : p.Holds v) :
    (v.exec p).1.Ok ∧ (v.exec p).2.Holds (v.exec p).1 := by
  cases p with
  | idle => exact ⟨hok, trivial⟩
  | waiting op => exact ⟨hok, trivial⟩
  | begun op => exact ⟨hok, rfl⟩
  | selected op reserved =>
    have hreserved : reserved = v.reservations := hp
    refine ⟨hok, fun m hm => ?_⟩
    rw [hreserved]
    exact lt_nextVersion hm
  | scanned op n =>
    cases op with
    | next =>
      refine ⟨hok, ?_⟩
      simp only [Versions.exec]
      split
      · exact trivial
      · exact hp
    | andWrite doc => exact ⟨hok, fun _ => hp⟩
  | inserted n =>
    have hfresh : n ∉ v.returned := fun hn => absurd (hp n (hok.taken n hn)) (Nat.lt_irrefl n)
    have hmem : n ∈ v.reservations ++ [n] := by simp
    refine ⟨⟨hok.filed, fun m hm => ?_, hok.nodup⟩, hmem, hfresh⟩
    exact (hok.taken m hm).imp_right (List.mem_append_left _)
  | committed n =>
    obtain ⟨hreserved, hfresh⟩ := hp
    exact ⟨hok.returns (Or.inr hreserved) hfresh, trivial⟩
  | mkdir writer n doc =>
    have hmem : ∀ m ∈ v.dirs, m ∈ (if n ∈ v.dirs then v.dirs else v.dirs ++ [n]) := by
      intro m hm
      split
      · exact hm
      · exact List.mem_append_left _ hm
    have hnew : n ∈ (if n ∈ v.dirs then v.dirs else v.dirs ++ [n]) := by
      split
      · assumption
      · simp
    refine ⟨⟨fun m hm => hmem m (hok.filed m hm), fun m hm => ?_, hok.nodup⟩, hnew, ?_⟩
    · exact (hok.taken m hm).imp_left (hmem m)
    · intro hwriter
      have hlt := hp hwriter
      constructor
      · exact fun hn => Nat.lt_irrefl n (hlt n (hok.taken n hn))
      · exact fun hn => Nat.lt_irrefl n (hlt n (Or.inr hn))
  | create writer n doc =>
    have hwrites : v.Writes writer n := hp
    simp only [Versions.exec]
    cases hfile : v.files n with
    | some file => exact ⟨hok, trivial⟩
    | none =>
      refine ⟨⟨fun m hm => ?_, hok.taken, hok.nodup⟩, ⟨hwrites.dir, hwrites.fresh⟩, ?_⟩
      · by_cases hmn : m = n
        · rw [hmn]
          exact hwrites.dir
        · apply hok.filed m
          simpa [Versions.putFile, hmn] using hm
      · simp [Versions.putFile]
  | fill writer n doc =>
    obtain ⟨hwrites, hfile⟩ := hp
    refine ⟨⟨fun m hm => ?_, hok.taken, hok.nodup⟩, hwrites.dir, hwrites.fresh⟩
    by_cases hmn : m = n
    · rw [hmn]
      exact hwrites.dir
    · apply hok.filed m
      simpa [Versions.exec, Versions.putFile, hmn] using hm
  | written writer n =>
    have hwrites : v.Writes writer n := hp
    cases writer with
    | exclusive =>
      refine ⟨⟨hok.filed, fun m hm => ?_, hok.nodup⟩, trivial⟩
      by_cases hmn : m = n
      · rw [hmn]
        exact Or.inl hwrites.dir
      · exact (hok.taken m hm).imp_right fun hres => List.mem_filter.mpr ⟨hres, by simpa using hmn⟩
    | allocated => exact ⟨hok.returns (Or.inl hwrites.dir) (hwrites.fresh rfl).1, trivial⟩

/-- The number that an allocation has chosen, and is to return. -/
def Point.number? : Point D → Option ℕ
  | .idle => none
  | .waiting _ => none
  | .begun _ => none
  | .selected _ _ => none
  | .scanned _ n => some n
  | .inserted n => some n
  | .committed n => some n
  | .mkdir writer n _ => if writer = .allocated then some n else none
  | .create writer n _ => if writer = .allocated then some n else none
  | .fill writer n _ => if writer = .allocated then some n else none
  | .written writer n => if writer = .allocated then some n else none

/-- What an instruction does to a number that is taken: it stays taken, no allocation chooses it,
and only the allocation that has chosen it returns it. -/
structure Versions.Keeps (v : Versions D) (p : Point D) (n : ℕ) : Prop where
  taken : (v.exec p).1.Taken n
  chosen : (v.exec p).2.number? = some n → p.number? = some n
  returned : n ∈ (v.exec p).1.returned → n ∈ v.returned ∨ p.number? = some n

theorem exec_keeps {v : Versions D} {p : Point D} (hp : p.Holds v) {n : ℕ} (hn : v.Taken n) :
    v.Keeps p n := by
  cases p with
  | idle => exact ⟨hn, id, Or.inl⟩
  | waiting op => exact ⟨hn, id, Or.inl⟩
  | begun op => exact ⟨hn, fun h => (by cases h), Or.inl⟩
  | selected op reserved =>
    have hreserved : reserved = v.reservations := hp
    refine ⟨hn, fun h => ?_, Or.inl⟩
    have hlt := lt_nextVersion hn
    rw [← hreserved, Option.some.inj h] at hlt
    exact absurd hlt (Nat.lt_irrefl n)
  | scanned op m =>
    cases op with
    | next =>
      refine ⟨hn, fun h => ?_, Or.inl⟩
      simp only [Versions.exec] at h
      split at h
      · cases h
      · exact h
    | andWrite doc => exact ⟨hn, id, Or.inl⟩
  | inserted m => exact ⟨hn.imp_right (List.mem_append_left _), id, Or.inl⟩
  | committed m =>
    refine ⟨hn, fun h => (by cases h), fun h => ?_⟩
    rcases List.mem_append.mp h with h | h
    · exact Or.inl h
    · exact Or.inr (congrArg some (List.mem_singleton.mp h).symm)
  | mkdir writer m doc =>
    refine ⟨hn.imp_left fun hdir => ?_, id, Or.inl⟩
    simp only [Versions.exec]
    split
    · exact hdir
    · exact List.mem_append_left _ hdir
  | create writer m doc =>
    constructor
    · simp only [Versions.exec]
      cases v.files m <;> exact hn
    · simp only [Versions.exec]
      cases v.files m with
      | some file => exact fun h => by cases h
      | none => exact id
    · simp only [Versions.exec]
      cases v.files m <;> exact Or.inl
  | fill writer m doc => exact ⟨hn, id, Or.inl⟩
  | written writer m =>
    have hwrites : v.Writes writer m := hp
    cases writer with
    | exclusive =>
      refine ⟨?_, fun h => (by cases h), Or.inl⟩
      by_cases hnm : n = m
      · rw [hnm]
        exact Or.inl hwrites.dir
      · exact hn.imp_right fun hres => List.mem_filter.mpr ⟨hres, by simpa using hnm⟩
    | allocated =>
      refine ⟨hn, fun h => (by cases h), fun h => ?_⟩
      rcases List.mem_append.mp h with h | h
      · exact Or.inl h
      · exact Or.inr (congrArg some (List.mem_singleton.mp h).symm)

/-- A file with its payload stays as it is. -/
theorem exec_files {v : Versions D} {p : Point D} (hp : p.Holds v) {n : ℕ} {doc : D}
    (hn : v.files n = some (some doc)) : (v.exec p).1.files n = some (some doc) := by
  have hput : ∀ {m file}, n ≠ m → (v.putFile m file).files n = some (some doc) := by
    intro m file hnm
    rw [← hn]
    exact if_neg hnm
  cases p with
  | create writer m d =>
    simp only [Versions.exec]
    cases hfile : v.files m with
    | some file => exact hn
    | none =>
      apply hput
      rintro rfl
      rw [hfile] at hn
      cases hn
  | fill writer m d =>
    apply hput
    rintro rfl
    rw [hp.2] at hn
    cases hn
  | scanned op m => cases op <;> exact hn
  | written writer m => cases writer <;> exact hn
  | _ => exact hn

/-- Only the thread that holds the lock stands behind `waiting`. -/
structure Allocator.Ok (a : Allocator D) : Prop where
  versions : a.versions.Ok
  holds : ∀ thread, (a.points thread).Holds a.versions
  outside : ∀ thread, a.lock ≠ some thread →
    a.points thread = .idle ∨ ∃ op, a.points thread = .waiting op

/-- What a move is: a thread that comes to be outside the lock, one that gets the lock, or an
instruction of the one that has it. -/
inductive Allocator.Moves (a : Allocator D) : Allocator D → Prop
  | waits (thread : ℕ) (point : Point D) (lock : Option ℕ)
      (hpoint : point = .idle ∨ ∃ op, point = .waiting op)
      (hlock : lock = a.lock ∨ (a.lock = some thread ∧ lock = none)) :
      Moves a { a.goTo thread point with lock }
  | enters (thread : ℕ) (op : Allocation D) (hlock : a.lock = none) :
      Moves a { a.goTo thread op.enter with lock := some thread }
  | executes (thread : ℕ) (lock : Option ℕ) (hlock : a.lock = some thread)
      (hrelease : lock = some thread ∨ (a.versions.exec (a.points thread)).2 = .idle) :
      Moves a { a.goTo thread (a.versions.exec (a.points thread)).2 with
        versions := (a.versions.exec (a.points thread)).1, lock }

theorem allocator_moves {a b : Allocator D} {move : AllocatorMove D}
    (h : allocator.step a move = some b) : a.Moves b := by
  cases move with
  | call thread op =>
    simp only [allocator] at h
    split at h
    · cases h
      exact .waits thread (.waiting op) a.lock (Or.inr ⟨op, rfl⟩) (Or.inl rfl)
    · cases h
  | acquire thread =>
    simp only [allocator] at h
    split at h
    · rename_i op hpoint hlock
      cases h
      exact .enters thread op hlock
    · cases h
  | go thread =>
    simp only [allocator] at h
    split at h
    · rename_i hlock
      cases h
      refine .executes thread _ hlock ?_
      cases (a.versions.exec (a.points thread)).2 <;> simp [Point.isIdle]
    · cases h
  | abort thread =>
    cases h
    refine .waits thread .idle _ (Or.inl rfl) ?_
    by_cases hlock : a.lock = some thread
    · rw [if_pos hlock]
      exact Or.inr ⟨hlock, rfl⟩
    · rw [if_neg hlock]
      exact Or.inl rfl

theorem holds_outside {v : Versions D} {p : Point D} (h : p = .idle ∨ ∃ op, p = .waiting op) :
    p.Holds v ∧ p.number? = none := by
  rcases h with rfl | ⟨op, rfl⟩
  · exact ⟨trivial, rfl⟩
  · exact ⟨trivial, rfl⟩

theorem holds_enter (v : Versions D) (op : Allocation D) :
    op.enter.Holds v ∧ (op.enter : Point D).number? = none := by
  cases op with
  | allocate op => exact ⟨trivial, rfl⟩
  | writeExclusive n doc => exact ⟨fun h => (by cases h), rfl⟩

/-- The point of one thread changes. -/
theorem points_goTo {P : Point D → Prop} {a : Allocator D} {thread : ℕ} {point : Point D}
    (hnew : P point) {t : ℕ} (hold : t ≠ thread → P (a.points t)) :
    P ((a.goTo thread point).points t) := by
  simp only [Allocator.goTo]
  split
  · exact hnew
  · rename_i hne
    exact hold hne

theorem allocator_ok {a b : Allocator D} (hok : a.Ok) (h : a.Moves b) : b.Ok := by
  cases h with
  | waits thread point lock hpoint hlock =>
    refine ⟨hok.versions, fun t => ?_, fun t ht => ?_⟩
    · exact points_goTo (holds_outside hpoint).1 fun _ => hok.holds t
    · refine points_goTo (P := fun p => p = .idle ∨ ∃ op, p = .waiting op) hpoint fun hne => ?_
      apply hok.outside t
      rcases hlock with rfl | ⟨hheld, -⟩
      · exact ht
      · rw [hheld]
        exact fun heq => hne (Option.some.inj heq).symm
  | enters thread op hlock =>
    refine ⟨hok.versions, fun t => ?_, fun t ht => ?_⟩
    · exact points_goTo (holds_enter _ op).1 fun _ => hok.holds t
    · have hne : t ≠ thread := fun heq => ht (congrArg some heq.symm)
      simp only [Allocator.goTo, if_neg hne]
      exact hok.outside t (by simp [hlock])
  | executes thread lock hlock hrelease =>
    obtain ⟨hversions, hpoint⟩ := exec_ok hok.versions (hok.holds thread)
    -- Every other thread is outside the lock, where nothing is promised.
    have hothers : ∀ t, t ≠ thread → a.points t = .idle ∨ ∃ op, a.points t = .waiting op := by
      intro t hne
      apply hok.outside t
      rw [hlock]
      exact fun heq => hne (Option.some.inj heq).symm
    refine ⟨hversions, fun t => ?_, fun t ht => ?_⟩
    · exact points_goTo hpoint fun hne => (holds_outside (hothers t hne)).1
    · by_cases hne : t = thread
      · have hidle := hrelease.resolve_left fun heq => ht (hne ▸ heq)
        simp only [Allocator.goTo, if_pos hne]
        exact Or.inl hidle
      · simp only [Allocator.goTo, if_neg hne]
        exact hothers t hne

/-- A number that is taken is returned, from here on, only by an allocation that has chosen it. -/
structure Allocator.Reserves (a : Allocator D) (n : ℕ) (Q : Prop) : Prop where
  taken : a.versions.Taken n
  chosen : ∀ thread, (a.points thread).number? = some n → Q
  returned : n ∈ a.versions.returned → Q

theorem allocator_reserves {a b : Allocator D} {n : ℕ} {Q : Prop} (hok : a.Ok)
    (hn : a.Reserves n Q) (h : a.Moves b) : b.Reserves n Q := by
  cases h with
  | waits thread point lock hpoint hlock =>
    refine ⟨hn.taken, fun t => ?_, hn.returned⟩
    refine points_goTo (P := fun p => p.number? = some n → Q) (fun hnum => ?_) fun _ => hn.chosen t
    rw [(holds_outside (v := a.versions) hpoint).2] at hnum
    cases hnum
  | enters thread op hlock =>
    refine ⟨hn.taken, fun t => ?_, hn.returned⟩
    refine points_goTo (P := fun p => p.number? = some n → Q) (fun hnum => ?_) fun _ => hn.chosen t
    rw [(holds_enter a.versions op).2] at hnum
    cases hnum
  | executes thread lock hlock hrelease =>
    have hkeeps := exec_keeps (hok.holds thread) hn.taken
    refine ⟨hkeeps.taken, fun t => ?_, fun hret => ?_⟩
    · exact points_goTo (P := fun p => p.number? = some n → Q)
        (fun hnum => hn.chosen thread (hkeeps.chosen hnum)) fun _ => hn.chosen t
    · exact (hkeeps.returned hret).elim hn.returned (hn.chosen thread)

theorem allocator_files {a b : Allocator D} {n : ℕ} {doc : D} (hok : a.Ok)
    (hn : a.versions.files n = some (some doc)) (h : a.Moves b) :
    b.versions.files n = some (some doc) := by
  cases h with
  | waits => exact hn
  | enters => exact hn
  | executes thread => exact exec_files (hok.holds thread) hn

/-- Nothing is running, and nothing has been returned; directories, files and reservations of an
earlier time may be there. -/
structure Allocator.Start (a : Allocator D) : Prop where
  filed : ∀ n, a.versions.files n ≠ none → n ∈ a.versions.dirs
  returned : a.versions.returned = []
  lock : a.lock = none
  idle : ∀ thread, a.points thread = .idle

theorem Allocator.Start.ok {a : Allocator D} (h : a.Start) : a.Ok where
  versions := ⟨h.filed, fun n hn => absurd (h.returned ▸ hn) List.not_mem_nil,
    h.returned ▸ List.nodup_nil⟩
  holds := fun thread => by
    rw [h.idle thread]
    trivial
  outside := fun thread _ => Or.inl (h.idle thread)

theorem allocator_run_ok {a b : Allocator D} {moves : List (AllocatorMove D)} (hok : a.Ok)
    (h : allocator.run a moves = some b) : b.Ok :=
  System.run_invariant (I := Allocator.Ok) (fun _ _ _ hok hstep =>
    allocator_ok hok (allocator_moves hstep)) hok h

/-- An allocation that has chosen a reserved number has reserved it itself. -/
theorem Allocator.Ok.reserved_chosen {a : Allocator D} (hok : a.Ok) {n thread : ℕ}
    (hn : n ∈ a.versions.reservations) (hnum : (a.points thread).number? = some n) :
    a.points thread = .committed n := by
  have hholds := hok.holds thread
  have hwrites : ∀ {writer : Writer} {m : ℕ},
      (if writer = .allocated then some m else none) = some n →
        writer = .allocated ∧ m = n := by
    intro writer m hm
    split at hm
    · exact ⟨‹_›, Option.some.inj hm⟩
    · cases hm
  cases hpoint : a.points thread with
  | idle => simp [hpoint, Point.number?] at hnum
  | waiting op => simp [hpoint, Point.number?] at hnum
  | begun op => simp [hpoint, Point.number?] at hnum
  | selected op reserved => simp [hpoint, Point.number?] at hnum
  | committed m =>
    rw [hpoint] at hnum
    exact congrArg Point.committed (Option.some.inj hnum)
  | scanned op m =>
    rw [hpoint] at hnum hholds
    have hlt := hholds n (Or.inr hn)
    rw [Option.some.inj hnum] at hlt
    exact absurd hlt (Nat.lt_irrefl n)
  | inserted m =>
    rw [hpoint] at hnum hholds
    have hlt := hholds n (Or.inr hn)
    rw [Option.some.inj hnum] at hlt
    exact absurd hlt (Nat.lt_irrefl n)
  | mkdir writer m doc =>
    rw [hpoint] at hnum hholds
    obtain ⟨hwriter, rfl⟩ := hwrites hnum
    exact absurd (hholds hwriter m (Or.inr hn)) (Nat.lt_irrefl m)
  | create writer m doc =>
    rw [hpoint] at hnum hholds
    obtain ⟨hwriter, rfl⟩ := hwrites hnum
    exact absurd hn (hholds.fresh hwriter).2
  | fill writer m doc =>
    rw [hpoint] at hnum hholds
    obtain ⟨hwriter, rfl⟩ := hwrites hnum
    exact absurd hn (hholds.1.fresh hwriter).2
  | written writer m =>
    rw [hpoint] at hnum hholds
    obtain ⟨hwriter, rfl⟩ := hwrites hnum
    exact absurd hn (hholds.fresh hwriter).2

/-- In every interleaving with ends at any point no number is returned twice; a number that is
reserved at a time is returned later only by the allocation that has reserved it, if that has not
returned yet; and a `version.json` that has been written stays as it is. -/
theorem versions_unique {start a b : Allocator D} {before after : List (AllocatorMove D)}
    (hstart : start.Start) (ha : allocator.run start before = some a)
    (hb : allocator.run a after = some b) :
    b.versions.returned.Nodup ∧
      (∀ n ∈ a.versions.reservations, n ∈ b.versions.returned →
        n ∈ a.versions.returned ∨ ∃ thread, a.points thread = .committed n) ∧
      ∀ n doc, a.versions.files n = some (some doc) → b.versions.files n = some (some doc) := by
  have hoka := allocator_run_ok hstart.ok ha
  refine ⟨(allocator_run_ok hoka hb).versions.nodup, fun n hn hret => ?_, fun n doc hdoc => ?_⟩
  · let Q : Prop := n ∈ a.versions.returned ∨ ∃ thread, a.points thread = .committed n
    have hreserves : a.Reserves n Q := by
      refine ⟨Or.inr hn, fun thread hnum => ?_, Or.inl⟩
      exact Or.inr ⟨thread, hoka.reserved_chosen hn hnum⟩
    have hboth : b.Ok ∧ b.Reserves n Q := by
      apply System.run_invariant (I := fun a => a.Ok ∧ a.Reserves n Q) _ ⟨hoka, hreserves⟩ hb
      intro s move t ⟨hok, hres⟩ hstep
      have hmoves := allocator_moves hstep
      exact ⟨allocator_ok hok hmoves, allocator_reserves hok hres hmoves⟩
    exact hboth.2.returned hret
  · have hboth : b.Ok ∧ b.versions.files n = some (some doc) := by
      apply System.run_invariant
        (I := fun a => a.Ok ∧ a.versions.files n = some (some doc)) _ ⟨hoka, hdoc⟩ hb
      intro s move t ⟨hok, hfile⟩ hstep
      have hmoves := allocator_moves hstep
      exact ⟨allocator_ok hok hmoves, allocator_files hok hfile hmoves⟩
    exact hboth.2

/-- A skill without versions. -/
def Allocator.empty : Allocator String := ⟨⟨[], fun _ => none, [], []⟩, none, fun _ => .idle⟩

theorem Allocator.empty_start : Allocator.empty.Start :=
  ⟨fun _ h => absurd rfl h, rfl, rfl, fun _ => rfl⟩

/-- A reservation whose owner ends before it learns the number. -/
def lostReservation : List (AllocatorMove String) :=
  [.call 0 (.allocate .next), .acquire 0, .go 0, .go 0, .go 0, .go 0, .abort 0]

/-- A version that is written at once, and another reservation. -/
def laterAllocations : List (AllocatorMove String) :=
  [.call 1 (.allocate (.andWrite "x")), .call 2 (.allocate .next), .acquire 1] ++
    List.replicate 7 (.go 1) ++ [.acquire 2] ++ List.replicate 5 (.go 2)

theorem versions_unique_lost : ∃ a b, allocator.run .empty lostReservation = some a ∧
    allocator.run a laterAllocations = some b ∧ a.versions.reservations = [1] ∧
      b.versions.returned = [2, 3] ∧ b.versions.returned.Nodup := by
  have hreserved : (allocator.run .empty lostReservation).map
      (·.versions.reservations) = some [1] := rfl
  have hreturned : ((allocator.run .empty lostReservation).bind fun a =>
      allocator.run a laterAllocations).map (·.versions.returned) = some [2, 3] := rfl
  obtain ⟨a, ha, hres⟩ := Option.map_eq_some_iff.mp hreserved
  rw [ha, Option.bind_some] at hreturned
  obtain ⟨b, hb, hret⟩ := Option.map_eq_some_iff.mp hreturned
  exact ⟨a, b, ha, hb, hres, hret, (versions_unique Allocator.empty_start ha hb).1⟩

end Recertia.Skill
