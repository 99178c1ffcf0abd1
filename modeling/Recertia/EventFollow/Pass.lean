import Mathlib.Data.List.TakeWhile
import Recertia.EventFollow.Follower

/-! The events of a log, and that one pass delivers those of the lines that it moves past. -/
namespace Recertia.EventFollow

open Json (PyValue PyDict)
open Lines (Bytes newline isBlank Terminated)

/-- The complete lines of a log. -/
def lines (log : Bytes) : List Bytes := (Lines.records log).dropLast

/-- Lines from a base offset on, each with the offset just past it. -/
def lineEnds (base : ℕ) : List Bytes → List (ℕ × Bytes)
  | [] => []
  | line :: rest => (base + line.length + 1, line) :: lineEnds (base + line.length + 1) rest

def joined (ls : List Bytes) : Bytes := ls.flatMap fun line => line ++ [newline]

def logLines (log : Bytes) : List (ℕ × Bytes) := lineEnds 0 (lines log)

def isHashable : PyValue → Bool
  | .list _ => false
  | .dict _ => false
  | _ => true

variable (codec : Codec)

/-- No exception leaves the handling of the line: it nests no deeper than the interpreter can
follow, and the type of its event can be looked up in a set. -/
structure Survives (line : Bytes) : Prop where
  reads : isBlank line = false → codec.loads line ≠ .recursionError
  writes : ∀ event, isBlank line = false → codec.loads line = .value (.dict event) →
    (codec.dumps event).isSome = true ∧ isHashable (PyDict.get event "type") = true

/-- The event of a line that is to be delivered. -/
def eventOf (line : Bytes) : Option PyDict :=
  if maxLineBytes < line.length then none
  else if isBlank line then none
  else
    match codec.loads line with
    | .value (.dict event) => some event
    | _ => none

def eventsOf (items : List (ℕ × Bytes)) : List (ℕ × PyDict) :=
  items.filterMap fun item => (eventOf codec item.2).map fun event => (item.1, event)

def frameOf (item : ℕ × PyDict) : Frame :=
  ⟨item.1, eventName (item.2.get "type"), (codec.dumps item.2).getD ""⟩

/-- The frames that a log stands for: of its complete lines of at most `maxLineBytes` that hold
an object, in their order, under the offset just past the line. -/
def framesOf (items : List (ℕ × Bytes)) : List Frame := (eventsOf codec items).map (frameOf codec)

def terminalEvent (event : PyDict) : Bool :=
  match event.get "type" with
  | .str s => s ∈ terminalTypes
  | _ => false

/-- Whether the last of the events is terminal, or what was known before them. -/
def terminalAfter (known : Bool) (events : List (ℕ × PyDict)) : Bool :=
  (events.getLast?.map fun item => terminalEvent item.2).getD known

theorem eventsOf_append (xs ys : List (ℕ × Bytes)) :
    eventsOf codec (xs ++ ys) = eventsOf codec xs ++ eventsOf codec ys := List.filterMap_append

theorem framesOf_append (xs ys : List (ℕ × Bytes)) :
    framesOf codec (xs ++ ys) = framesOf codec xs ++ framesOf codec ys := by
  rw [framesOf, eventsOf_append, List.map_append]
  rfl

theorem terminalAfter_append (known : Bool) (xs ys : List (ℕ × PyDict)) :
    terminalAfter known (xs ++ ys) = terminalAfter (terminalAfter known xs) ys := by
  unfold terminalAfter
  rw [List.getLast?_append]
  cases ys.getLast? <;> rfl

theorem lineEnds_append (base : ℕ) (xs ys : List Bytes) :
    lineEnds base (xs ++ ys) = lineEnds base xs ++
      lineEnds (base + (joined xs).length) ys := by
  induction xs generalizing base with
  | nil => rfl
  | cons x xs ih =>
    have hlen : base + x.length + 1 + (joined xs).length = base + (joined (x :: xs)).length := by
      simp only [joined, List.flatMap_cons, List.length_append, List.length_singleton]
      omega
    rw [List.cons_append, lineEnds, lineEnds, ih, hlen, List.cons_append]

theorem lt_of_mem_lineEnds {base : ℕ} {xs : List Bytes} {item : ℕ × Bytes}
    (h : item ∈ lineEnds base xs) : base < item.1 := by
  induction xs generalizing base with
  | nil => exact absurd h List.not_mem_nil
  | cons x xs ih =>
    rcases List.mem_cons.mp h with rfl | h
    · exact Nat.lt_succ_of_le (Nat.le_add_right base _)
    · have hlt := ih h
      omega

theorem lines_append {p q : Bytes} (hp : Terminated p) : lines (p ++ q) = lines p ++ lines q := by
  rcases hp with rfl | ⟨r, rfl⟩
  · rfl
  · have hone : lines (r ++ [newline]) = Lines.records r := by
      rw [lines, Lines.records_append_newline]
      exact List.dropLast_concat
    rw [hone, lines, List.append_assoc, List.singleton_append, Lines.records_append_newline,
      List.dropLast_append_of_ne_nil (Lines.records_ne_nil q)]
    rfl

theorem lines_of_not_mem {q : Bytes} (h : newline ∉ q) : lines q = [] := by
  rw [lines, Lines.records_of_not_mem h]
  rfl

theorem lines_line {line : Bytes} (h : newline ∉ line) : lines (line ++ [newline]) = [line] := by
  rw [lines, Lines.records_line h]
  rfl

/-- Terminated lines, joined again, are the text that they come from. -/
theorem joined_lines {p : Bytes} (hp : Terminated p) : joined (lines p) = p := by
  have hrecords : ∀ r : Bytes, joined (Lines.records r) = r ++ [newline] := by
    intro r
    induction r with
    | nil => rfl
    | cons b r ih =>
      unfold Lines.records
      split
      · rename_i hb
        rw [joined, List.flatMap_cons, ← joined, ih, hb]
        rfl
      · cases hr : Lines.records r with
        | nil => exact absurd hr (Lines.records_ne_nil r)
        | cons line rest =>
          rw [hr] at ih
          simp only [joined, List.flatMap_cons, List.cons_append] at ih ⊢
          rw [ih]
  rcases hp with rfl | ⟨r, rfl⟩
  · rfl
  · have hone : lines (r ++ [newline]) = Lines.records r := by
      rw [lines, Lines.records_append_newline]
      exact List.dropLast_concat
    rw [hone, hrecords]

theorem logLines_append {p q : Bytes} (hp : Terminated p) :
    logLines (p ++ q) = logLines p ++ lineEnds p.length (lines q) := by
  rw [logLines, lines_append hp, lineEnds_append, joined_lines hp, Nat.zero_add]
  rfl

/-- The follower after a line without an event. -/
def Follower.past (f : Follower) (line : Bytes) : Follower :=
  { f with offset := f.offset + line.length + 1 }

theorem isTerminal_eq {event : PyDict} (h : isHashable (event.get "type") = true) :
    isTerminal event = .ok (terminalEvent event) := by
  unfold isTerminal terminalEvent
  cases hv : PyDict.get event "type" with
  | list _ =>
    rw [hv] at h
    cases h
  | dict _ =>
    rw [hv] at h
    cases h
  | _ => rfl

theorem isTerminal_error {event : PyDict} (h : isHashable (event.get "type") = false) :
    isTerminal event = .error .typeError := by
  unfold isTerminal
  cases hv : PyDict.get event "type" with
  | list _ => rfl
  | dict _ => rfl
  | _ =>
    rw [hv] at h
    cases h

/-- A line runs out of recursion, has no event, or has one. -/
theorem parseLine_cases {line : Bytes} (hshort : line.length ≤ maxLineBytes) :
    (parseLine codec line = .error .recursionError ∧ ¬ Survives codec line) ∨
    (parseLine codec line = .ok none ∧ Survives codec line ∧ eventOf codec line = none) ∨
    (∃ event, parseLine codec line = .ok (some event) ∧ eventOf codec line = some event ∧
      (Survives codec line ↔
        (codec.dumps event).isSome = true ∧ isHashable (event.get "type") = true)) := by
  have hlong : ¬ maxLineBytes < line.length := Nat.not_lt.mpr hshort
  by_cases hblank : isBlank line = true
  · refine Or.inr (Or.inl ⟨by rw [parseLine, if_pos hblank], ⟨fun h => ?_, fun _ h => ?_⟩, ?_⟩)
    · rw [hblank] at h
      cases h
    · rw [hblank] at h
      cases h
    · rw [eventOf, if_neg hlong, if_pos hblank]
  · have hvisible := Bool.eq_false_iff.mpr hblank
    by_cases hdict : ∃ event, codec.loads line = .value (.dict event)
    · obtain ⟨event, hloads⟩ := hdict
      refine Or.inr (Or.inr ⟨event, ?_, ?_, fun h => h.writes event hvisible hloads, fun h => ?_⟩)
      · rw [parseLine, if_neg hblank, hloads]
      · rw [eventOf, if_neg hlong, if_neg hblank, hloads]
      · refine ⟨fun _ hraise => ?_, fun other _ hother => ?_⟩
        · rw [hloads] at hraise
          cases hraise
        · rw [hloads] at hother
          cases hother
          exact h
    · have hwrites : ∀ event, isBlank line = false → codec.loads line = .value (.dict event) →
          (codec.dumps event).isSome = true ∧ isHashable (PyDict.get event "type") = true :=
        fun event _ h => absurd ⟨event, h⟩ hdict
      by_cases hraise : codec.loads line = .recursionError
      · refine Or.inl ⟨?_, fun h => h.reads hvisible hraise⟩
        rw [parseLine, if_neg hblank, hraise]
      · refine Or.inr (Or.inl ⟨?_, ⟨fun _ => hraise, hwrites⟩, ?_⟩)
        · rw [parseLine, if_neg hblank]
          split
          · rename_i event hloads
            exact absurd ⟨event, hloads⟩ hdict
          · rfl
          · rfl
          · rename_i hloads
            exact absurd hloads hraise
        · rw [eventOf, if_neg hlong, if_neg hblank]
          split
          · rename_i event hloads
            exact absurd ⟨event, hloads⟩ hdict
          · rfl

/-- One turn of the loop: an exception, a line without an event, or an event. -/
theorem consumeLines_cons {line : Bytes} (hshort : line.length ≤ maxLineBytes) :
    (¬ Survives codec line ∧ ∀ f ls, ∃ crash, consumeLines codec f (line :: ls) = .error crash) ∨
    (Survives codec line ∧ eventOf codec line = none ∧ ∀ f ls,
      consumeLines codec f (line :: ls) = consumeLines codec (f.past line) ls) ∨
    (Survives codec line ∧ ∃ event, eventOf codec line = some event ∧ ∀ f ls,
      consumeLines codec f (line :: ls) =
        (consumeLines codec { f.past line with lastTerminal := terminalEvent event } ls).map
          fun out => (frameOf codec ((f.past line).offset, event) :: out.1, out.2)) := by
  rcases parseLine_cases codec hshort with ⟨hparse, hnot⟩ | ⟨hparse, hsurvives, hnone⟩ |
    ⟨event, hparse, hevent, hiff⟩
  · refine Or.inl ⟨hnot, fun f ls => ⟨.recursionError, ?_⟩⟩
    simp only [consumeLines, hparse, bind, Except.bind]
  · refine Or.inr (Or.inl ⟨hsurvives, hnone, fun f ls => ?_⟩)
    simp only [consumeLines, hparse, bind, Except.bind]
    rfl
  · cases hdumps : codec.dumps event with
    | none =>
      refine Or.inl ⟨fun h => ?_, fun f ls => ⟨.recursionError, ?_⟩⟩
      · have hsome := (hiff.mp h).1
        rw [hdumps] at hsome
        cases hsome
      · simp only [consumeLines, hparse, bind, Except.bind, sseFrame, hdumps]
    | some data =>
      cases hhash : isHashable (PyDict.get event "type") with
      | false =>
        refine Or.inl ⟨fun h => ?_, fun f ls => ⟨.typeError, ?_⟩⟩
        · have htrue := (hiff.mp h).2
          rw [hhash] at htrue
          cases htrue
        · simp only [consumeLines, hparse, bind, Except.bind, sseFrame, hdumps,
            isTerminal_error hhash]
      | true =>
        refine Or.inr (Or.inr ⟨hiff.mpr ⟨by rw [hdumps]; rfl, hhash⟩, event, hevent,
          fun f ls => ?_⟩)
        simp only [consumeLines, hparse, bind, Except.bind, sseFrame, hdumps, isTerminal_eq hhash,
          Follower.past, frameOf, Option.getD_some]
        split
        · rename_i heq
          rw [heq]
          rfl
        · rename_i heq
          rw [heq]
          rfl

/-- The follower after it moved past the lines. -/
def Follower.after (f : Follower) (ls : List Bytes) : Follower where
  offset := f.offset + (joined ls).length
  skipping := f.skipping
  lastTerminal := terminalAfter f.lastTerminal (eventsOf codec (lineEnds f.offset ls))

theorem Follower.after_cons_none {f : Follower} {line : Bytes} {ls : List Bytes}
    (h : eventOf codec line = none) : f.after codec (line :: ls) = (f.past line).after codec ls := by
  have hlen : f.offset + (joined (line :: ls)).length =
      (f.past line).offset + (joined ls).length := by
    simp only [joined, Follower.past, List.flatMap_cons, List.length_append, List.length_singleton]
    omega
  have hevents : eventsOf codec (lineEnds f.offset (line :: ls)) =
      eventsOf codec (lineEnds (f.past line).offset ls) := by
    simp only [eventsOf, lineEnds, List.filterMap_cons, h, Option.map_none, Follower.past]
  simp only [Follower.after, hlen, hevents]
  rfl

theorem Follower.after_cons_some {f : Follower} {line : Bytes} {ls : List Bytes} {event : PyDict}
    (h : eventOf codec line = some event) : f.after codec (line :: ls) =
      ({ f.past line with lastTerminal := terminalEvent event } : Follower).after codec ls := by
  have hlen : f.offset + (joined (line :: ls)).length =
      (f.past line).offset + (joined ls).length := by
    simp only [joined, Follower.past, List.flatMap_cons, List.length_append, List.length_singleton]
    omega
  have hevents : eventsOf codec (lineEnds f.offset (line :: ls)) =
      [((f.past line).offset, event)] ++ eventsOf codec (lineEnds (f.past line).offset ls) := by
    simp only [eventsOf, lineEnds, List.filterMap_cons, h, Option.map_some, Follower.past,
      List.singleton_append]
  simp only [Follower.after, hlen, hevents, terminalAfter_append]
  rfl

/-- The loop over complete lines raises nothing exactly if every line survives it, and then
delivers their frames. -/
theorem consumeLines_eq_ok {ls : List Bytes} (hshort : ∀ line ∈ ls, line.length ≤ maxLineBytes)
    {f g : Follower} {frames : List Frame} :
    consumeLines codec f ls = .ok (frames, g) ↔
      (∀ line ∈ ls, Survives codec line) ∧
      frames = framesOf codec (lineEnds f.offset ls) ∧ g = f.after codec ls := by
  induction ls generalizing f g frames with
  | nil =>
    have hnil : f.after codec [] = f := rfl
    rw [hnil]
    constructor
    · intro h
      cases h
      exact ⟨fun _ hline => absurd hline List.not_mem_nil, rfl, rfl⟩
    · rintro ⟨-, rfl, rfl⟩
      rfl
  | cons line ls ih =>
    obtain ⟨hline, hrest⟩ := List.forall_mem_cons.mp hshort
    rw [List.forall_mem_cons]
    rcases consumeLines_cons codec hline with ⟨hnot, herror⟩ | ⟨hsurvives, hnone, hstep⟩ |
      ⟨hsurvives, event, hevent, hstep⟩
    · obtain ⟨crash, hcrash⟩ := herror f ls
      rw [hcrash]
      constructor
      · intro h
        cases h
      · exact fun h => absurd h.1.1 hnot
    · have hframes : framesOf codec (lineEnds f.offset (line :: ls)) =
          framesOf codec (lineEnds (f.past line).offset ls) := by
        simp only [framesOf, eventsOf, lineEnds, List.filterMap_cons, hnone, Option.map_none,
          Follower.past]
      rw [hstep, ih hrest, hframes, f.after_cons_none codec hnone]
      simp only [hsurvives, true_and]
    · have hframes : framesOf codec (lineEnds f.offset (line :: ls)) =
          frameOf codec ((f.past line).offset, event) ::
            framesOf codec (lineEnds (f.past line).offset ls) := by
        simp only [framesOf, eventsOf, lineEnds, List.filterMap_cons, hevent, Option.map_some,
          Follower.past, List.map_cons]
      rw [hstep, hframes, f.after_cons_some codec hevent]
      let next : Follower := { f.past line with lastTerminal := terminalEvent event }
      constructor
      · intro h
        cases hout : consumeLines codec next ls with
        | error crash =>
          have hfail : consumeLines codec
              { f.past line with lastTerminal := terminalEvent event } ls = .error crash := hout
          rw [hfail] at h
          cases h
        | ok out =>
          have hok : consumeLines codec
              { f.past line with lastTerminal := terminalEvent event } ls = .ok out := hout
          rw [hok] at h
          cases h
          obtain ⟨hall, hfr, hg⟩ := (ih hrest).mp (show consumeLines codec next ls = .ok (out.1, out.2)
            from hout)
          exact ⟨⟨hsurvives, hall⟩, by rw [hfr], hg⟩
      · rintro ⟨⟨-, hall⟩, rfl, rfl⟩
        have hok := (ih (f := next) hrest).mpr ⟨hall, rfl, rfl⟩
        have hnext : consumeLines codec
            { f.past line with lastTerminal := terminalEvent event } ls =
              .ok (framesOf codec (lineEnds next.offset ls), next.after codec ls) := hok
        rw [hnext]
        rfl

/-- Where a follower stands in a log: after complete lines, and after a part of an over-long one
while it skips that. -/
structure At (log : Bytes) (f : Follower) (p tail q : Bytes) : Prop where
  split : log = p ++ (tail ++ q)
  offset : f.offset = p.length + tail.length
  boundary : Terminated p
  inLine : newline ∉ tail
  skipping : if f.skipping then maxLineBytes < tail.length else tail = []

/-- The lines that a pass moved past, and what it did for them. -/
structure Moves (f g : Follower) (p new : Bytes) (out : Except Crash (List Frame × Follower)) :
    Prop where
  terminal : g.lastTerminal =
    terminalAfter f.lastTerminal (eventsOf codec (lineEnds p.length (lines new)))
  ok_iff : ∀ frames h, out = .ok (frames, h) ↔
    (∀ line ∈ lines new, line.length ≤ maxLineBytes → Survives codec line) ∧
    frames = framesOf codec (lineEnds p.length (lines new)) ∧ h = g
  forward : f.offset ≤ g.offset

theorem moves_nothing {f g : Follower} {p : Bytes} (hterminal : g.lastTerminal = f.lastTerminal)
    (hforward : f.offset ≤ g.offset) : Moves codec f g p [] (.ok ([], g)) := by
  refine ⟨hterminal, fun frames h => ?_, hforward⟩
  have hnil : framesOf codec (lineEnds p.length (lines [])) = [] := rfl
  rw [hnil]
  constructor
  · intro heq
    cases heq
    exact ⟨fun _ hline => absurd hline List.not_mem_nil, rfl, rfl⟩
  · rintro ⟨-, rfl, rfl⟩
    rfl

theorem takeWhile_newline {before after : Bytes} (h : newline ∉ before) :
    (before ++ newline :: after).takeWhile (fun b => b ≠ newline) = before := by
  have hall : ∀ b ∈ before, decide (b ≠ newline) = true := fun b hb =>
    decide_eq_true fun heq => h (heq ▸ hb)
  rw [List.takeWhile_append_of_pos hall, List.takeWhile_cons_of_neg (by simp), List.append_nil]

theorem length_lt_joined {ls : List Bytes} {line : Bytes} (h : line ∈ ls) :
    line.length < (joined ls).length := by
  obtain ⟨before, after, rfl⟩ := List.append_of_mem h
  simp only [joined, List.flatMap_append, List.flatMap_cons, List.length_append,
    List.length_singleton]
  omega

/-- The end of an over-long line is found. -/
theorem consume_end_of_long {log p tail q as bs : Bytes} {offset : ℕ} {known : Bool}
    (hat : At log ⟨offset, true, known⟩ p tail q) (has : newline ∉ as)
    (hsplit : q.take (maxLineBytes + 1) = as ++ newline :: bs) :
    At log ⟨offset + as.length + 1, false, known⟩ (p ++ (tail ++ (as ++ [newline]))) []
      (bs ++ q.drop (maxLineBytes + 1)) ∧
    Moves codec ⟨offset, true, known⟩ ⟨offset + as.length + 1, false, known⟩ p
      (tail ++ (as ++ [newline]))
      (consume codec ⟨offset, true, known⟩ (q.take (maxLineBytes + 1))) := by
  have hlong : maxLineBytes < tail.length := by simpa only [if_true] using hat.skipping
  have hoffset : offset = p.length + tail.length := hat.offset
  have hq := List.take_append_drop (maxLineBytes + 1) q
  have hline : newline ∉ tail ++ as := by
    rw [List.mem_append, not_or]
    exact ⟨hat.inLine, has⟩
  have hlines : lines (tail ++ (as ++ [newline])) = [tail ++ as] := by
    rw [← List.append_assoc, lines_line hline]
  have hnone : eventOf codec (tail ++ as) = none := by
    rw [eventOf, if_pos]
    rw [List.length_append]
    omega
  have hevents : eventsOf codec (lineEnds p.length (lines (tail ++ (as ++ [newline])))) = [] := by
    simp only [hlines, lineEnds, eventsOf, List.filterMap_cons, hnone, Option.map_none,
      List.filterMap_nil]
  have hconsume : consume codec ⟨offset, true, known⟩ (q.take (maxLineBytes + 1)) =
      .ok ([], ⟨offset + as.length + 1, false, known⟩) := by
    have hne : as.length ≠ (as ++ newline :: bs).length := by
      rw [List.length_append, List.length_cons]
      omega
    rw [hsplit]
    simp only [consume, if_true, takeWhile_newline has, if_neg hne]
  rw [hconsume]
  rw [hsplit] at hq
  generalize q.drop (maxLineBytes + 1) = more at hq ⊢
  constructor
  · refine ⟨?_, ?_, ?_, List.not_mem_nil, rfl⟩
    · rw [hat.split, ← hq]
      simp only [List.append_assoc, List.nil_append, List.cons_append]
    · simp only [List.length_append, List.length_singleton, List.length_nil]
      omega
    · rw [← List.append_assoc tail]
      exact Lines.terminated_append_line p (tail ++ as)
  · refine ⟨by rw [hevents]; rfl, fun frames h => ?_, by simp only; omega⟩
    rw [framesOf, hevents]
    constructor
    · intro heq
      cases heq
      refine ⟨fun line hmem hshort => ?_, rfl, rfl⟩
      rw [hlines, List.mem_singleton] at hmem
      rw [hmem, List.length_append] at hshort
      omega
    · rintro ⟨-, rfl, rfl⟩
      rfl

/-- Complete lines were read. -/
theorem consume_lines {log p q : Bytes} {offset : ℕ} {known : Bool}
    (hat : At log ⟨offset, false, known⟩ p [] q) (hnew : newline ∈ q.take (maxLineBytes + 1)) :
    ∃ g, g.skipping = false ∧
    At log g (p ++ Lines.complete (q.take (maxLineBytes + 1))) []
      (Lines.rest (q.take (maxLineBytes + 1)) ++ q.drop (maxLineBytes + 1)) ∧
    Moves codec ⟨offset, false, known⟩ g p (Lines.complete (q.take (maxLineBytes + 1)))
      (consume codec ⟨offset, false, known⟩ (q.take (maxLineBytes + 1))) ∧
    offset < g.offset := by
  have hoffset : offset = p.length := hat.offset
  have hq := List.take_append_drop (maxLineBytes + 1) q
  have hlen : (q.take (maxLineBytes + 1)).length ≤ maxLineBytes + 1 := List.length_take_le _ _
  generalize q.take (maxLineBytes + 1) = data at *
  generalize q.drop (maxLineBytes + 1) = more at hq ⊢
  obtain ⟨r, s, rfl, hs⟩ := Lines.exists_last_newline hnew
  have hterminated : Terminated (r ++ [newline]) := Or.inr ⟨r, rfl⟩
  have hsplit : r ++ newline :: s = r ++ [newline] ++ s := by simp
  have hcomplete : Lines.complete (r ++ newline :: s) = r ++ [newline] := by
    rw [hsplit, Lines.complete_append hterminated hs]
  have hrest : Lines.rest (r ++ newline :: s) = s := Lines.rest_append hs
  have hrecords : Lines.records (r ++ [newline]).dropLast = lines (r ++ [newline]) := by
    rw [List.dropLast_concat, lines, Lines.records_append_newline]
    exact List.dropLast_concat.symm
  have hshort : ∀ line ∈ lines (r ++ [newline]), line.length ≤ maxLineBytes := by
    intro line hline
    have hlt := length_lt_joined hline
    rw [joined_lines hterminated] at hlt
    rw [hsplit, List.length_append] at hlen
    omega
  have hconsume : consume codec ⟨offset, false, known⟩ (r ++ newline :: s) =
      consumeLines codec ⟨offset, false, known⟩ (lines (r ++ [newline])) := by
    rw [consume, if_neg Bool.false_ne_true, if_neg (not_not.mpr hnew), hcomplete, hrecords]
  rw [hcomplete, hrest, hconsume]
  refine ⟨(⟨offset, false, known⟩ : Follower).after codec (lines (r ++ [newline])), rfl, ?_, ?_, ?_⟩
  · refine ⟨?_, ?_, ?_, List.not_mem_nil, rfl⟩
    · rw [hat.split, ← hq]
      simp only [List.append_assoc, List.nil_append, List.cons_append]
    · simp only [Follower.after, joined_lines hterminated, List.length_append, List.length_nil]
      omega
    · rw [← List.append_assoc]
      exact Or.inr ⟨p ++ r, rfl⟩
  · refine ⟨by rw [← hoffset]; rfl, fun frames h => ?_, Nat.le_add_right _ _⟩
    rw [consumeLines_eq_ok codec hshort, ← hoffset]
    constructor
    · rintro ⟨hall, hframes, hg⟩
      exact ⟨fun line hline _ => hall line hline, hframes, hg⟩
    · rintro ⟨hall, hframes, hg⟩
      exact ⟨fun line hline => hall line hline (hshort line hline), hframes, hg⟩
  · simp only [Follower.after, joined_lines hterminated, List.length_append, List.length_singleton]
    omega

/-- Nothing is left to read but an unfinished line that may still be delivered. -/
def Rested (g : Follower) (q : Bytes) : Prop :=
  newline ∉ q ∧ (q = [] ∨ g.skipping = false ∧ q.length ≤ maxLineBytes)

/-- One bounded read from where a follower stands: it gets past some lines, whose frames it
delivers, and it stays only before the unfinished last line. -/
theorem consume_spec {log p tail q : Bytes} {f : Follower} (hat : At log f p tail q) :
    ∃ new tail' q' g, At log g (p ++ new) tail' q' ∧
      Moves codec f g p new (consume codec f (q.take (maxLineBytes + 1))) ∧
      (g.offset = f.offset → Rested g q') := by
  obtain ⟨offset, skipping, known⟩ := f
  have hsplit := hat.split
  have hoffset : offset = p.length + tail.length := hat.offset
  have hq := List.take_append_drop (maxLineBytes + 1) q
  have hempty : q.take (maxLineBytes + 1) = [] → q = [] := fun h => by
    rcases List.take_eq_nil_iff.mp h with hzero | hnil
    · omega
    · exact hnil
  cases skipping with
  | true =>
    have hlong : maxLineBytes < tail.length := by simpa only [if_true] using hat.skipping
    by_cases hnew : newline ∈ q.take (maxLineBytes + 1)
    · obtain ⟨as, bs, hdata, has⟩ := List.eq_append_cons_of_mem hnew
      obtain ⟨hat', hmoves⟩ := consume_end_of_long codec hat has hdata
      exact ⟨_, _, _, _, hat', hmoves, fun heq => by simp only at heq; omega⟩
    · generalize q.take (maxLineBytes + 1) = data at *
      have hall : data.takeWhile (fun b => b ≠ newline) = data :=
        List.takeWhile_eq_self_iff.mpr fun b hb => decide_eq_true fun heq => hnew (heq ▸ hb)
      have hconsume : consume codec ⟨offset, true, known⟩ data =
          .ok ([], ⟨offset + data.length, true, known⟩) := by
        simp only [consume, if_true, hall]
      rw [hconsume]
      refine ⟨[], tail ++ data, q.drop (maxLineBytes + 1), ⟨offset + data.length, true, known⟩,
        ⟨?_, ?_, ?_, ?_, ?_⟩, moves_nothing codec rfl (Nat.le_add_right _ _), fun heq => ?_⟩
      · rw [hsplit, ← hq, List.append_nil, List.append_assoc]
        simp only [hq]
      · simp only [List.append_nil, List.length_append]
        omega
      · rw [List.append_nil]
        exact hat.boundary
      · rw [List.mem_append, not_or]
        exact ⟨hat.inLine, hnew⟩
      · simp only [if_true, List.length_append]
        omega
      · simp only at heq
        rw [hempty (List.length_eq_zero_iff.mp (by omega)), List.drop_nil]
        exact ⟨List.not_mem_nil, Or.inl rfl⟩
  | false =>
    have htail : tail = [] := by
      simpa only [Bool.false_eq_true, if_false] using hat.skipping
    subst htail
    by_cases hnew : newline ∈ q.take (maxLineBytes + 1)
    · obtain ⟨g, -, hat', hmoves, hlt⟩ := consume_lines codec hat hnew
      exact ⟨_, _, _, g, hat', hmoves, fun heq => by simp only at heq; omega⟩
    · by_cases hlong : maxLineBytes < (q.take (maxLineBytes + 1)).length
      · have hconsume : consume codec ⟨offset, false, known⟩ (q.take (maxLineBytes + 1)) =
            .ok ([], ⟨offset + (q.take (maxLineBytes + 1)).length, true, known⟩) := by
          rw [consume, if_neg Bool.false_ne_true, if_pos hnew, if_pos hlong]
        rw [hconsume]
        refine ⟨[], q.take (maxLineBytes + 1), q.drop (maxLineBytes + 1), _, ⟨?_, ?_, ?_, hnew, ?_⟩,
          moves_nothing codec rfl (Nat.le_add_right _ _), fun heq => ?_⟩
        · rw [hq, hsplit, List.nil_append, List.append_nil]
        · rw [List.length_nil] at hoffset
          simp only [List.append_nil]
          omega
        · rw [List.append_nil]
          exact hat.boundary
        · simpa only [if_true] using hlong
        · simp only at heq
          omega
      · have hconsume : consume codec ⟨offset, false, known⟩ (q.take (maxLineBytes + 1)) =
            .ok ([], ⟨offset, false, known⟩) := by
          rw [consume, if_neg Bool.false_ne_true, if_pos hnew, if_neg hlong]
        have hlen : q.length ≤ maxLineBytes := by
          rw [List.length_take] at hlong
          omega
        have hwhole : q.take (maxLineBytes + 1) = q := List.take_of_length_le (by omega)
        rw [hconsume]
        refine ⟨[], [], q, ⟨offset, false, known⟩, ⟨?_, ?_, ?_, List.not_mem_nil, rfl⟩,
          moves_nothing codec rfl (Nat.le_refl _), fun _ => ⟨hwhole ▸ hnew, Or.inr ⟨rfl, hlen⟩⟩⟩
        · rw [hsplit, List.append_nil]
        · rw [List.append_nil]
          exact hoffset
        · rw [List.append_nil]
          exact hat.boundary

end Recertia.EventFollow
