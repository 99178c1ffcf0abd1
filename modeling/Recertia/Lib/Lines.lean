import Mathlib.Data.List.Basic

/-! Newline-terminated records in a file of bytes. -/
namespace Lines

abbrev Bytes := List UInt8

def newline : UInt8 := 10
def carriageReturn : UInt8 := 13

/-- Python's ASCII whitespace: tab, newline, vertical tab, form feed, return, space. -/
def isSpace (b : UInt8) : Bool := b == 32 || (9 ≤ b && b ≤ 13)

/-- `not line.strip()` -/
def isBlank (line : Bytes) : Bool := line.all isSpace

/-- One line of a text file: no line break in it, and not blank. -/
def isLine (line : Bytes) : Bool :=
  line.all (fun b => b != newline && b != carriageReturn) && !isBlank line

theorem isLine_iff {line : Bytes} :
    isLine line = true ↔ newline ∉ line ∧ carriageReturn ∉ line ∧ isBlank line = false := by
  simp only [isLine, Bool.and_eq_true, List.all_eq_true, bne_iff_ne, Bool.not_eq_true']
  constructor
  · rintro ⟨h, hb⟩
    exact ⟨fun hm => (h _ hm).1 rfl, fun hm => (h _ hm).2 rfl, hb⟩
  · rintro ⟨hn, hr, hb⟩
    exact ⟨fun b hm => ⟨fun he => hn (he ▸ hm), fun he => hr (he ▸ hm)⟩, hb⟩

/-- The pieces between newlines; the last one is the unterminated rest. -/
def records : Bytes → List Bytes
  | [] => [[]]
  | b :: bs =>
    if b = newline then [] :: records bs
    else
      match records bs with
      | [] => [[b]]
      | r :: rs => (b :: r) :: rs

/-- Every record of the file is terminated. -/
def Terminated (file : Bytes) : Prop := file = [] ∨ ∃ p, file = p ++ [newline]

theorem records_ne_nil (file : Bytes) : records file ≠ [] := by
  cases file with
  | nil => simp [records]
  | cons b bs =>
    unfold records
    split
    · simp
    · split <;> simp

theorem records_append_newline (p s : Bytes) :
    records (p ++ newline :: s) = records p ++ records s := by
  induction p with
  | nil => simp [records]
  | cons b bs ih =>
    simp only [List.cons_append, records, ih]
    split
    · rfl
    · cases hr : records bs with
      | nil => exact absurd hr (records_ne_nil bs)
      | cons r rs => rfl

theorem records_of_not_mem {line : Bytes} (h : newline ∉ line) : records line = [line] := by
  induction line with
  | nil => rfl
  | cons b bs ih =>
    have hb : b ≠ newline := fun hb => h (hb ▸ List.mem_cons_self)
    have hbs : records bs = [bs] := ih fun hm => h (List.mem_cons_of_mem _ hm)
    simp only [records, hb, hbs, if_false]

theorem records_line {line : Bytes} (h : newline ∉ line) :
    records (line ++ [newline]) = [line, []] := by
  rw [records_append_newline, records_of_not_mem h]
  rfl

theorem newline_not_mem_of_mem_records {file record : Bytes} (h : record ∈ records file) :
    newline ∉ record := by
  induction file generalizing record with
  | nil =>
    rw [records, List.mem_singleton] at h
    rw [h]
    exact List.not_mem_nil
  | cons b bs ih =>
    unfold records at h
    split at h
    · rcases List.mem_cons.mp h with rfl | h
      · exact List.not_mem_nil
      · exact ih h
    · rename_i hb
      have hb' : newline ≠ b := fun heq => hb heq.symm
      cases hr : records bs with
      | nil => exact absurd hr (records_ne_nil bs)
      | cons first rest =>
        rw [hr] at h ih
        rcases List.mem_cons.mp h with rfl | h
        · rw [List.mem_cons, not_or]
          exact ⟨hb', ih List.mem_cons_self⟩
        · exact ih (List.mem_cons_of_mem first h)

/-- The first record is the whole file, or it ends at the first newline. -/
theorem records_split {file r : Bytes} {rs : List Bytes} (h : records file = r :: rs) :
    (rs = [] ∧ r = file ∧ newline ∉ file) ∨
      ∃ more, file = r ++ newline :: more ∧ newline ∉ r ∧ records more = rs := by
  by_cases hmem : newline ∈ file
  · obtain ⟨first, more, hfile, hfirst⟩ := List.eq_append_cons_of_mem hmem
    rw [hfile, records_append_newline, records_of_not_mem hfirst] at h
    obtain ⟨rfl, hmore⟩ := List.cons.inj h
    exact Or.inr ⟨more, hfile, hfirst, hmore⟩
  · rw [records_of_not_mem hmem] at h
    obtain ⟨rfl, rfl⟩ := List.cons.inj h
    exact Or.inl ⟨rfl, rfl, hmem⟩

theorem isBlank_records {file : Bytes} :
    (∀ r ∈ records file, isBlank r = true) ↔ isBlank file = true := by
  induction file with
  | nil => simp [records]
  | cons b bs ih =>
    have hnewline : isSpace newline = true := by decide
    unfold records
    split
    · rename_i hb
      subst hb
      simpa [isBlank, hnewline] using ih
    · cases hr : records bs with
      | nil => exact absurd hr (records_ne_nil bs)
      | cons r rs =>
        rw [hr] at ih
        simp only [List.forall_mem_cons, isBlank, List.all_cons, Bool.and_eq_true,
          and_assoc] at ih ⊢
        rw [ih]

/-- A line added to a terminated file is its last record. -/
theorem records_append_line {file line : Bytes} (hf : Terminated file) (h : newline ∉ line) :
    records (file ++ (line ++ [newline])) = (records file).dropLast ++ [line, []] := by
  rcases hf with rfl | ⟨p, rfl⟩
  · rw [List.nil_append, records_line h]
    rfl
  · have hp : records (p ++ [newline]) = records p ++ [[]] := records_append_newline p []
    rw [hp, List.dropLast_concat, List.append_assoc, List.singleton_append,
      records_append_newline, records_line h]

/-- What follows the last newline. -/
def rest (file : Bytes) : Bytes := ((records file).getLast?).getD []

theorem rest_append {p s : Bytes} (h : newline ∉ s) : rest (p ++ newline :: s) = s := by
  simp [rest, records_append_newline, records_of_not_mem h]

theorem exists_last_newline {file : Bytes} (h : newline ∈ file) :
    ∃ p s, file = p ++ newline :: s ∧ newline ∉ s := by
  obtain ⟨s, p, hsplit, hs⟩ := List.eq_append_cons_of_mem (List.mem_reverse.mpr h)
  refine ⟨p.reverse, s.reverse, ?_, fun hm => hs (List.mem_reverse.mp hm)⟩
  have hfile : file = (s ++ newline :: p).reverse := by rw [← hsplit, List.reverse_reverse]
  simpa using hfile

theorem terminated_of_rest {file : Bytes} (h : newline ∈ file) (hr : rest file = []) :
    Terminated file := by
  obtain ⟨p, s, rfl, hs⟩ := exists_last_newline h
  rw [rest_append hs] at hr
  subst hr
  exact Or.inr ⟨p, rfl⟩

theorem rest_of_terminated {file : Bytes} (h : Terminated file) : rest file = [] := by
  rcases h with rfl | ⟨p, rfl⟩
  · rfl
  · exact rest_append List.not_mem_nil

theorem rest_of_not_mem {file : Bytes} (h : newline ∉ file) : rest file = file := by
  rw [rest, records_of_not_mem h]
  rfl

/-- Everything up to the last newline. -/
def complete (file : Bytes) : Bytes := file.take (file.length - (rest file).length)

theorem rest_append_terminated {p s : Bytes} (hp : Terminated p) (h : newline ∉ s) :
    rest (p ++ s) = s := by
  rcases hp with rfl | ⟨q, rfl⟩
  · exact rest_of_not_mem h
  · rw [List.append_assoc, List.singleton_append]
    exact rest_append h

theorem complete_append {p s : Bytes} (hp : Terminated p) (h : newline ∉ s) :
    complete (p ++ s) = p := by
  rw [complete, rest_append_terminated hp h, List.length_append, Nat.add_sub_cancel,
    List.take_left']
  rfl

/-- A file is its complete lines and a partial one. -/
theorem exists_complete (file : Bytes) :
    ∃ p s, file = p ++ s ∧ Terminated p ∧ newline ∉ s := by
  by_cases h : newline ∈ file
  · obtain ⟨p, s, rfl, hs⟩ := exists_last_newline h
    exact ⟨p ++ [newline], s, by simp, Or.inr ⟨p, rfl⟩, hs⟩
  · exact ⟨[], file, rfl, Or.inl rfl, h⟩

theorem complete_terminated (file : Bytes) : Terminated (complete file) := by
  obtain ⟨p, s, rfl, hp, hs⟩ := exists_complete file
  rwa [complete_append hp hs]

theorem complete_append_rest (file : Bytes) : complete file ++ rest file = file := by
  obtain ⟨p, s, rfl, hp, hs⟩ := exists_complete file
  rw [complete_append hp hs, rest_append_terminated hp hs]

theorem terminated_append_line (file line : Bytes) : Terminated (file ++ (line ++ [newline])) :=
  Or.inr ⟨file ++ line, (List.append_assoc ..).symm⟩

theorem terminated_drop {file : Bytes} (h : Terminated file) (n : Nat) :
    Terminated (file.drop n) := by
  rcases h with rfl | ⟨p, rfl⟩
  · exact Or.inl List.drop_nil
  · rw [List.drop_append]
    rcases Nat.lt_or_ge p.length n with hn | hn
    · left
      simp [List.drop_eq_nil_of_le (Nat.le_of_lt hn), List.drop_eq_nil_iff]
      omega
    · right
      exact ⟨p.drop n, by rw [Nat.sub_eq_zero_of_le hn, List.drop_zero]⟩

/-- `bytes.splitlines`: a line ends at a newline, a carriage return or the pair of them. -/
def splitlinesFrom (line : Bytes) (afterReturn : Bool) : Bytes → List Bytes
  | [] => if line = [] then [] else [line]
  | b :: bs =>
    if b = newline then
      if afterReturn then splitlinesFrom [] false bs else line :: splitlinesFrom [] false bs
    else if b = carriageReturn then line :: splitlinesFrom [] true bs
    else splitlinesFrom (line ++ [b]) false bs

def splitlines (file : Bytes) : List Bytes := splitlinesFrom [] false file

theorem splitlinesFrom_append (line : Bytes) (r : Bool) (p s : Bytes) :
    splitlinesFrom line r (p ++ newline :: s) =
      splitlinesFrom line r (p ++ [newline]) ++ splitlines s := by
  induction p generalizing line r with
  | nil =>
    simp only [List.nil_append, splitlinesFrom, if_true, splitlines]
    cases r <;> rfl
  | cons b bs ih =>
    simp only [List.cons_append, splitlinesFrom]
    split
    · split
      · exact ih _ _
      · rw [ih, List.cons_append]
    · split
      · rw [ih, List.cons_append]
      · exact ih _ _

theorem splitlines_append {p s : Bytes} (h : Terminated p) :
    splitlines (p ++ s) = splitlines p ++ splitlines s := by
  rcases h with rfl | ⟨q, rfl⟩
  · rfl
  · rw [List.append_assoc, List.singleton_append]
    exact splitlinesFrom_append [] false q s

theorem splitlines_line {line : Bytes} (hn : newline ∉ line) (hr : carriageReturn ∉ line) :
    splitlines (line ++ [newline]) = [line] := by
  have hfrom : ∀ s acc : Bytes, newline ∉ s → carriageReturn ∉ s →
      splitlinesFrom acc false (s ++ [newline]) = [acc ++ s] := by
    intro s
    induction s with
    | nil =>
      intro acc _ _
      simp [splitlinesFrom]
    | cons b bs ih =>
      intro acc hn hr
      simp only [List.mem_cons, not_or] at hn hr
      simp only [List.cons_append, splitlinesFrom, Ne.symm hn.1, Ne.symm hr.1, if_false]
      rw [ih _ hn.2 hr.2, List.append_assoc, List.singleton_append]
  exact hfrom line [] hn hr

end Lines
