import Mathlib.Data.List.Basic
import Mathlib.Tactic.Common

/-! A connection whose calls run statement by statement in a transaction that their last statement
commits, and what a call leaves behind that raises on the way. -/
namespace ImplicitTx

/-- What other connections see, and what this one sees. -/
structure Conn (C : Type*) where
  committed : C
  live : C

/-- A storage error at a statement, counted from zero. Some of them roll the transaction back. -/
structure Fault where
  position : ℕ
  rollsBack : Bool := false
  deriving DecidableEq, Repr

variable {S C : Type*} (exec : S → C → Option C)

/-- The contents after statements that do not raise. -/
def after (stmts : List S) (c : C) : C := stmts.foldl (fun c s => (exec s c).getD c) c

/-- How many statements come before the first that raises, by itself or by a fault. -/
def completed : List S → Option ℕ → C → ℕ
  | [], _, _ => 0
  | s :: stmts, fault, c =>
    if fault = some 0 then 0
    else match exec s c with
      | none => 0
      | some c' => completed stmts (fault.map Nat.pred) c' + 1

/-- The rollback that SQLite does by itself. -/
def rolledBack (stmts : List S) (fault : Option Fault) (c : C) : Bool :=
  fault.any fun f => f.rollsBack && f.position = completed exec stmts (some f.position) c

/-- A call and whether it returns; its last statement is the commit. -/
def call (stmts : List S) (fault : Option Fault) (conn : Conn C) : Conn C × Bool :=
  let n := completed exec stmts (fault.map Fault.position) conn.live
  let live := after exec (stmts.take n) conn.live
  if n = stmts.length then (⟨live, live⟩, true)
  else if rolledBack exec stmts fault conn.live then (⟨conn.committed, conn.committed⟩, false)
  else ({ conn with live := live }, false)

@[simp] theorem after_nil (c : C) : after exec [] c = c := rfl

theorem after_append (xs ys : List S) (c : C) :
    after exec (xs ++ ys) c = after exec ys (after exec xs c) := List.foldl_append

variable {exec}

/-- A call that returns has committed all that its statements do. -/
theorem call_returned {stmts : List S} {fault : Option Fault} {conn : Conn C}
    (h : (call exec stmts fault conn).2 = true) :
    (call exec stmts fault conn).1 = ⟨after exec stmts conn.live, after exec stmts conn.live⟩ := by
  unfold call at h ⊢
  dsimp only at h ⊢
  split at h
  · rename_i hn
    rw [if_pos hn, hn, List.take_length]
  · split at h <;> cases h

/-- A call that raises has committed nothing, and leaves what its completed statements have done
unless that is rolled back. -/
theorem call_raised {stmts : List S} {fault : Option Fault} {conn : Conn C}
    (h : (call exec stmts fault conn).2 = false) :
    (call exec stmts fault conn).1.committed = conn.committed ∧
      (call exec stmts fault conn).1.live =
        if rolledBack exec stmts fault conn.live then conn.committed
        else after exec (stmts.take (completed exec stmts (fault.map Fault.position) conn.live))
          conn.live := by
  unfold call at h ⊢
  dsimp only at h ⊢
  split at h
  · cases h
  · rename_i hn
    rw [if_neg hn]
    split <;> exact ⟨rfl, rfl⟩

end ImplicitTx
