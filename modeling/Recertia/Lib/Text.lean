import Mathlib.Data.List.Infix

/-! Python text operations on code points: `in`, `startswith`, `strip`, `splitlines` and the
part of `lower` that an ASCII pattern can see. -/
namespace Text

def contains (hay needle : String) : Bool := decide (needle.toList <:+: hay.toList)

def startsWith (s p : String) : Bool := p.toList.isPrefixOf s.toList

/-- `s[len(p):]` when `s` starts with `p`. -/
def dropPrefix? (s p : String) : Option String := (s.toList.dropPrefix? p.toList).map String.ofList

def isSpace (c : Char) : Bool :=
  let n := c.toNat
  (0x09 ≤ n && n ≤ 0x0d) || (0x1c ≤ n && n ≤ 0x20) || n == 0x85 || n == 0xa0 || n == 0x1680 ||
    (0x2000 ≤ n && n ≤ 0x200a) || n == 0x2028 || n == 0x2029 || n == 0x202f || n == 0x205f ||
    n == 0x3000

def isLineBreak (c : Char) : Bool :=
  let n := c.toNat
  (0x0a ≤ n && n ≤ 0x0d) || (0x1c ≤ n && n ≤ 0x1e) || n == 0x85 || n == 0x2028 || n == 0x2029

def stripChars (drop : Char → Bool) (s : List Char) : List Char :=
  ((s.dropWhile drop).reverse.dropWhile drop).reverse

def strip (s : String) : String := String.ofList (stripChars isSpace s.toList)

/-- `s.strip().splitlines()[0]`, or nothing where the list of lines is empty. -/
def firstLine? (s : String) : Option String :=
  match stripChars isSpace s.toList with
  | [] => none
  | cs => some (String.ofList (cs.takeWhile fun c => !isLineBreak c))

-- Only the dotted capital I and the Kelvin sign have an ASCII letter in their lower case; every
-- other letter outside ASCII is kept, since no ASCII pattern can match its lower case.
def lowerChar (c : Char) : List Char :=
  if c.toNat = 0x130 then ['i', Char.ofNat 0x307]
  else if c.toNat = 0x212a then ['k']
  else [c.toLower]

def lower (s : String) : String := String.ofList (s.toList.flatMap lowerChar)

/-- `s[:n]` -/
def takeFirst (n : ℕ) (s : String) : String := String.ofList (s.toList.take n)

/-- `s[-n:]` -/
def takeLast (n : ℕ) (s : String) : String :=
  String.ofList (s.toList.drop (s.toList.length - n))

/-- The occurrences of `old`, from the left and without overlaps, become `new`; `skip` counts the
characters of the last occurrence that are still to come. -/
def replaceChars (old new : List Char) : ℕ → List Char → List Char
  | _, [] => []
  | skip + 1, _ :: cs => replaceChars old new skip cs
  | 0, c :: cs =>
    if old.isPrefixOf (c :: cs) then new ++ replaceChars old new (old.length - 1) cs
    else c :: replaceChars old new 0 cs

/-- `s.replace(old, new)` for a non-empty `old`. -/
def replace (s old new : String) : String :=
  String.ofList (replaceChars old.toList new.toList 0 s.toList)

/-- A text is cut at its first separator in one way. -/
theorem append_sep_inj {α : Type*} {sep : α} {a b c d : List α} (ha : sep ∉ a) (hb : sep ∉ b)
    (h : a ++ sep :: c = b ++ sep :: d) : a = b ∧ c = d := by
  induction a generalizing b with
  | nil =>
    cases b with
    | nil => exact ⟨rfl, (List.cons.inj h).2⟩
    | cons y b => exact absurd ((List.cons.inj h).1 ▸ List.mem_cons_self) hb
  | cons x a ih =>
    cases b with
    | nil => exact absurd ((List.cons.inj h).1 ▸ List.mem_cons_self) ha
    | cons y b =>
      obtain ⟨rfl, htail⟩ := List.cons.inj h
      obtain ⟨rfl, hrest⟩ := ih (fun hm => ha (List.mem_cons_of_mem _ hm))
        (fun hm => hb (List.mem_cons_of_mem _ hm)) htail
      exact ⟨rfl, hrest⟩

theorem mem_intercalate {α : Type*} {sep c : α} {words : List (List α)}
    (h : c ∈ [sep].intercalate words) : c = sep ∨ ∃ word ∈ words, c ∈ word := by
  induction words with
  | nil => cases h
  | cons word words ih =>
    cases words with
    | nil =>
      rw [List.intercalate_singleton] at h
      exact Or.inr ⟨word, List.mem_cons_self, h⟩
    | cons next words =>
      rw [List.intercalate_cons_cons, List.append_assoc, List.mem_append, List.mem_append,
        List.mem_singleton] at h
      rcases h with h | h | h
      · exact Or.inr ⟨word, List.mem_cons_self, h⟩
      · exact Or.inl h
      · rcases ih h with hsep | ⟨word', hword', hc⟩
        · exact Or.inl hsep
        · exact Or.inr ⟨word', List.mem_cons_of_mem _ hword', hc⟩

/-- The `repr` of a list of strings without quotes, backslashes or control characters. -/
def reprList (xs : List String) : String :=
  "[" ++ ", ".intercalate (xs.map fun x => "'" ++ x ++ "'") ++ "]"

example : contains (lower "FLA\u212aY tool") "flaky" = true := by decide +kernel

example : replace (replace "a/b...c" "/" "_") ".." "_" = "a_b_.c" := by decide +kernel

end Text
