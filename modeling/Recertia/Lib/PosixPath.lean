import Mathlib.Data.List.Basic

/-! Pure POSIX paths: an anchor and clean parts, read from a text and written back. -/
namespace PosixPath

/-- What stands before the parts: nothing, `/`, or exactly two slashes. -/
inductive Anchor
  | relative
  | root
  | doubleRoot
  deriving DecidableEq, Repr

def Anchor.slashes : Anchor → ℕ
  | .relative => 0
  | .root => 1
  | .doubleRoot => 2

/-- Three slashes and more count as one. -/
def Anchor.ofSlashes : ℕ → Anchor
  | 0 => .relative
  | 2 => .doubleRoot
  | _ => .root

/-- No part is empty, a single dot, or has a slash. -/
def isPart (part : String) : Bool :=
  part.toList ≠ [] && part.toList ≠ ['.'] && !part.toList.contains '/'

@[ext] structure PurePath where
  anchor : Anchor
  parts : List String
  clean : ∀ part ∈ parts, isPart part = true
  deriving DecidableEq, Repr

namespace PurePath

/-- The parts of a text without its leading slashes. -/
def partsOf (text : List Char) : List String :=
  ((text.splitOn '/').map String.ofList).filter isPart

/-- `Path(text)` -/
def ofStr (text : String) : PurePath where
  anchor := .ofSlashes (text.toList.takeWhile (· == '/')).length
  parts := partsOf (text.toList.dropWhile (· == '/'))
  clean := fun _ hpart => (List.mem_filter.mp hpart).2

/-- `str(path)`, as a list of characters. -/
def chars (path : PurePath) : List Char :=
  if path.anchor = .relative ∧ path.parts = [] then ['.']
  else List.replicate path.anchor.slashes '/' ++ ['/'].intercalate (path.parts.map String.toList)

/-- `str(path)` -/
def str (path : PurePath) : String := String.ofList path.chars

/-- `path.parent` -/
def parent (path : PurePath) : PurePath where
  anchor := path.anchor
  parts := path.parts.dropLast
  clean := fun part hpart => path.clean part (List.dropLast_subset _ hpart)

/-- `path / text`: an absolute text replaces the path. -/
def join (path : PurePath) (text : String) : PurePath :=
  if (ofStr text).anchor = .relative then
    { anchor := path.anchor
      parts := path.parts ++ (ofStr text).parts
      clean := fun part hpart => (List.mem_append.mp hpart).elim (path.clean part)
        ((ofStr text).clean part) }
  else ofStr text

theorem isPart_iff (part : String) :
    isPart part = true ↔ part.toList ≠ [] ∧ part.toList ≠ ['.'] ∧ '/' ∉ part.toList := by
  simp [isPart, and_assoc]

theorem ofSlashes_slashes (anchor : Anchor) : Anchor.ofSlashes anchor.slashes = anchor := by
  cases anchor <;> rfl

/-- The parts written one after another do not start with a slash. -/
theorem head_intercalate {parts : List String} (h : ∀ part ∈ parts, isPart part = true) :
    ∀ c ∈ (['/'].intercalate (parts.map String.toList)).head?, (c == '/') = false := by
  intro c hc
  cases parts with
  | nil => simp at hc
  | cons part rest =>
    obtain ⟨hne, -, hslash⟩ := (isPart_iff part).mp (h part List.mem_cons_self)
    obtain ⟨d, ds, hd⟩ := List.exists_cons_of_ne_nil hne
    have hhead : (['/'].intercalate ((part :: rest).map String.toList)).head? = some d := by
      cases rest with
      | nil => simp [List.intercalate, hd]
      | cons next rest => simp [List.intercalate, hd]
    have hcd : d = c := by simpa only [hhead, Option.mem_def, Option.some.injEq] using hc
    have hne' : c ≠ '/' := by
      intro h
      apply hslash
      rw [hd, hcd, h]
      exact List.mem_cons_self
    simpa using hne'

theorem takeWhile_slashes (n : ℕ) {rest : List Char}
    (h : ∀ c ∈ rest.head?, (c == '/') = false) :
    (List.replicate n '/' ++ rest).takeWhile (· == '/') = List.replicate n '/' := by
  induction n with
  | zero =>
    cases rest with
    | nil => rfl
    | cons c rest =>
      have hc : (c == '/') = false := h c rfl
      simp [hc]
  | succ n ih => simpa [List.replicate_succ] using ih

theorem dropWhile_slashes (n : ℕ) {rest : List Char}
    (h : ∀ c ∈ rest.head?, (c == '/') = false) :
    (List.replicate n '/' ++ rest).dropWhile (· == '/') = rest := by
  induction n with
  | zero =>
    cases rest with
    | nil => rfl
    | cons c rest =>
      have hc : (c == '/') = false := h c rfl
      simp [hc]
  | succ n ih => simpa [List.replicate_succ] using ih

theorem partsOf_intercalate {parts : List String} (h : ∀ part ∈ parts, isPart part = true) :
    partsOf (['/'].intercalate (parts.map String.toList)) = parts := by
  by_cases hnil : parts = []
  · subst hnil
    decide
  · have hsplit : (['/'].intercalate (parts.map String.toList)).splitOn '/'
        = parts.map String.toList := by
      apply List.splitOn_intercalate
      · intro text htext
        obtain ⟨part, hpart, rfl⟩ := List.mem_map.mp htext
        exact ((isPart_iff part).mp (h part hpart)).2.2
      · simpa using hnil
    have hback : (parts.map String.toList).map String.ofList = parts := by simp
    rw [partsOf, hsplit, hback, List.filter_eq_self.mpr h]

theorem ofStr_anchor (text : String) :
    (ofStr text).anchor = .ofSlashes (text.toList.takeWhile (· == '/')).length := rfl

theorem ofStr_parts (text : String) :
    (ofStr text).parts = partsOf (text.toList.dropWhile (· == '/')) := rfl

/-- A path is read back from its text. -/
theorem ofStr_str (path : PurePath) : ofStr path.str = path := by
  by_cases hdot : path.anchor = .relative ∧ path.parts = []
  · have htext : path.str.toList = ['.'] := by
      simp only [str, chars, if_pos hdot, String.toList_ofList]
    apply PurePath.ext
    · rw [ofStr_anchor, htext, hdot.1]
      decide
    · rw [ofStr_parts, htext, hdot.2]
      decide
  · have htext : path.str.toList = List.replicate path.anchor.slashes '/' ++
        ['/'].intercalate (path.parts.map String.toList) := by
      simp only [str, chars, if_neg hdot, String.toList_ofList]
    have hhead := head_intercalate path.clean
    apply PurePath.ext
    · rw [ofStr_anchor, htext, takeWhile_slashes _ hhead, List.length_replicate,
        ofSlashes_slashes]
    · rw [ofStr_parts, htext, dropWhile_slashes _ hhead, partsOf_intercalate path.clean]

theorem str_ne_empty (path : PurePath) : path.str ≠ "" := by
  intro h
  have hchars : path.chars = [] := by
    rw [str] at h
    simpa using congrArg String.toList h
  obtain ⟨anchor, parts, clean⟩ := path
  unfold chars at hchars
  split at hchars
  · cases hchars
  · rename_i hdot
    obtain ⟨hslash, hnil⟩ := List.append_eq_nil_iff.mp hchars
    cases parts with
    | nil => cases anchor <;> simp_all [Anchor.slashes]
    | cons part rest =>
      have hne := ((isPart_iff part).mp (clean part List.mem_cons_self)).1
      cases rest with
      | nil => simp_all [List.intercalate]
      | cons next rest => simp_all [List.intercalate]

end PurePath

example : (PurePath.ofStr "/srv//runs/./acme/").str = "/srv/runs/acme" := by decide

example : ((PurePath.ofStr "runs").join "/etc").str = "/etc" := by decide

end PosixPath
