import Mathlib.Data.List.Infix

/-! A POSIX file system from its root, with names as code points, and where a path leads in it. -/
namespace PosixFs

/-- Code points; a name that is no UTF-8 is read with lone surrogates in it. -/
abbrev Text := List ℕ

abbrev Path := List Text

inductive Node
  | dir
  | file (content : List UInt8)
  | link (target : Text)
  | fifo
  deriving DecidableEq

/-- What is at each path; the root is a directory. -/
abbrev Fs := Path → Option Node

def slash : ℕ := 47

def dot : ℕ := 46

def isAbs (text : Text) : Bool := text.head? = some slash

def partsOf (text : Text) : List Text := (text.splitOn slash).filter fun p => p ≠ [] && p ≠ [dot]

def nodeAt (fs : Fs) (p : Path) : Option Node := if p = [] then some .dir else fs p

/-- `realpath`, which does not ask whether what it goes through is there; nothing for a loop. -/
def follow (fs : Fs) : ℕ → Path → List Text → Option Path
  | 0, _, _ => none
  | _ + 1, at_, [] => some at_
  | n + 1, at_, part :: todo =>
    if part = [dot, dot] then follow fs n at_.dropLast todo
    else
      match fs (at_ ++ [part]) with
      | some (.link target) =>
        if isAbs target then follow fs n [] (partsOf target ++ todo)
        else follow fs n at_ (partsOf target ++ todo)
      | _ => follow fs n (at_ ++ [part]) todo

/-- No part of the path is a link or `..`. -/
def Canonical (fs : Fs) (p : Path) : Prop :=
  ∀ q part, q ++ [part] <+: p → part ≠ [dot, dot] ∧ ∀ target, fs (q ++ [part]) ≠ some (.link target)

theorem canonical_nil (fs : Fs) : Canonical fs [] := by
  intro q part h
  exact absurd (List.prefix_nil.mp h) (by simp)

theorem Canonical.of_prefix {fs : Fs} {p q : Path} (h : Canonical fs p) (hq : q <+: p) :
    Canonical fs q := fun r part hr => h r part (hr.trans hq)

theorem Canonical.concat {fs : Fs} {p : Path} {part : Text} (h : Canonical fs p)
    (hpart : part ≠ [dot, dot]) (hlink : ∀ target, fs (p ++ [part]) ≠ some (.link target)) :
    Canonical fs (p ++ [part]) := by
  intro q last hq
  rcases List.prefix_concat_iff.mp hq with heq | hbefore
  · obtain ⟨rfl, hlast⟩ := List.append_inj' heq rfl
    cases hlast
    exact ⟨hpart, hlink⟩
  · exact h q last hbefore

/-- A path that is followed to its end is canonical there. -/
theorem follow_canonical {fs : Fs} {n : ℕ} {at_ : Path} {todo : List Text} {p : Path}
    (hat : Canonical fs at_) (h : follow fs n at_ todo = some p) : Canonical fs p := by
  induction n generalizing at_ todo with
  | zero => cases h
  | succ n ih =>
    cases todo with
    | nil =>
      cases h
      exact hat
    | cons part todo =>
      rw [follow] at h
      by_cases hup : part = [dot, dot]
      · rw [if_pos hup] at h
        exact ih (hat.of_prefix (List.dropLast_prefix _)) h
      · rw [if_neg hup] at h
        split at h
        · split at h
          · exact ih (canonical_nil fs) h
          · exact ih hat h
        · rename_i hno
          exact ih (hat.concat hup fun target heq => hno target heq) h

/-- A canonical path leads to itself. -/
theorem follow_of_canonical {fs : Fs} {n : ℕ} {at_ : Path} {todo : List Text}
    (h : Canonical fs (at_ ++ todo)) (hn : todo.length < n) :
    follow fs n at_ todo = some (at_ ++ todo) := by
  induction todo generalizing n at_ with
  | nil =>
    cases n with
    | zero => exact absurd hn (Nat.not_lt_zero _)
    | succ n => rw [follow, List.append_nil]
  | cons part todo ih =>
    cases n with
    | zero => exact absurd hn (Nat.not_lt_zero _)
    | succ n =>
      have hsplit : at_ ++ part :: todo = (at_ ++ [part]) ++ todo := by
        rw [List.append_assoc, List.singleton_append]
      rw [hsplit] at h ⊢
      obtain ⟨hup, hlink⟩ := h at_ part (List.prefix_append _ _)
      have hrest := ih h (Nat.lt_of_succ_lt_succ hn)
      rw [follow, if_neg hup]
      split
      · rename_i target heq
        exact absurd heq (hlink target)
      · exact hrest

/-- `stat`, which follows links. -/
def stat (fs : Fs) (fuel : ℕ) (p : Path) : Option Node := (follow fs fuel [] p).bind (nodeAt fs)

end PosixFs
