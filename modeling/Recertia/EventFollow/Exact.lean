import Recertia.EventFollow.Pass

/-! A follower delivers the frames of its log exactly, over every growth of the log and every
schedule of passes, and so does one that resumes from a delivered id. -/
namespace Recertia.EventFollow

open Json (PyValue PyDict)
open Lines (Bytes newline isBlank Terminated)

variable (codec : Codec)

/-- The frames of a log after a cursor. -/
def framesAfter (cursor : ℕ) (log : Bytes) : List Frame :=
  (framesOf codec (logLines log)).filter fun frame => cursor < frame.id

/-- Where a follower that has read everything stands. -/
def endOf (log : Bytes) : ℕ :=
  if (Lines.rest log).length ≤ maxLineBytes then (Lines.complete log).length else log.length

/-- The follow is over: the last event of the log is terminal, and nothing follows it. -/
def decision (log : Bytes) (size : ℕ) : Bool :=
  terminalAfter false (eventsOf codec (logLines log)) && endOf log = size

/-- What a follower from a cursor on owes its client. -/
structure Exact (cursor : ℕ) (s : Session) : Prop where
  alive : s.crashed = false
  inOrder : s.frames <+: framesAfter codec cursor s.bytes
  caughtUp : ∀ log size polled, s.last = some (log, size, polled) → polled.more = false →
    s.frames = framesAfter codec cursor log ∧ polled.done = decision codec log size
  drains : ∃ n polled, (s.run codec (List.replicate n (.poll []))).last =
    some (s.bytes, s.bytes.length, polled) ∧ polled.more = false

/-- Over every growth up to `log` and every schedule, the frames are exact, and so are those of a
client that reconnects at any delivered id. -/
def FollowsExactly (log : Bytes) : Prop :=
  ∀ calls, (Session.start.run codec calls).bytes <+: log →
    Exact codec 0 (Session.start.run codec calls) ∧
    ∀ frame ∈ (Session.start.run codec calls).frames, ∃ f,
      Follower.new codec (Session.start.run codec calls).bytes frame.id = .ok f ∧
      ∀ later, (((Session.start.run codec calls).resume f).run codec later).bytes <+: log →
        Exact codec frame.id (((Session.start.run codec calls).resume f).run codec later)

/-- No exception leaves the handling of a line that is to be read. -/
def Handled (log : Bytes) : Prop :=
  ∀ item ∈ logLines log, item.2.length ≤ maxLineBytes → Survives codec item.2

theorem mem_lineEnds_iff (base : ℕ) {ls : List Bytes} {line : Bytes} :
    (∃ past, (past, line) ∈ lineEnds base ls) ↔ line ∈ ls := by
  induction ls generalizing base with
  | nil => simp [lineEnds]
  | cons l ls ih =>
    rw [List.mem_cons, ← ih (base + l.length + 1)]
    constructor
    · rintro ⟨past, h⟩
      rcases List.mem_cons.mp h with heq | h
      · exact Or.inl (Prod.mk.inj heq).2
      · exact Or.inr ⟨past, h⟩
    · rintro (rfl | ⟨past, h⟩)
      · exact ⟨_, List.mem_cons_self⟩
      · exact ⟨past, List.mem_cons_of_mem _ h⟩

theorem logLines_of_open {p q : Bytes} (hp : Terminated p) (hq : newline ∉ q) :
    logLines (p ++ q) = logLines p := by
  rw [logLines_append hp, lines_of_not_mem hq]
  exact List.append_nil _

/-- The complete lines of a part of the log are those at its beginning. -/
theorem logLines_initial {p log : Bytes} (hp : Terminated p) (h : p <+: log) :
    logLines p <+: logLines log := by
  obtain ⟨rest, rfl⟩ := h
  rw [logLines_append hp]
  exact List.prefix_append _ _

theorem framesAfter_append {p q : Bytes} (hp : Terminated p) {cursor : ℕ}
    (hcursor : cursor ≤ p.length) : framesAfter codec cursor (p ++ q) =
      framesAfter codec cursor p ++ framesOf codec (lineEnds p.length (lines q)) := by
  have hall : ∀ frame ∈ framesOf codec (lineEnds p.length (lines q)),
      decide (cursor < frame.id) = true := by
    intro frame hframe
    obtain ⟨item, hitem, rfl⟩ := List.mem_map.mp hframe
    obtain ⟨lineItem, hline, hevent⟩ := List.mem_filterMap.mp hitem
    obtain ⟨event, -, rfl⟩ := Option.map_eq_some_iff.mp hevent
    have hlt := lt_of_mem_lineEnds hline
    exact decide_eq_true (by simp only [frameOf]; omega)
  rw [framesAfter, logLines_append hp, framesOf_append, List.filter_append,
    List.filter_eq_self.mpr hall]
  rfl

/-- What one pass reports, from where it ended. -/
def report (f g : Follower) (size : ℕ) (frames : List Frame) : Polled :=
  ⟨frames, g.lastTerminal && g.offset = size, g.offset ≠ f.offset && g.offset < size⟩

theorem consume_nil (f : Follower) : consume codec f [] = .ok ([], f) := by
  obtain ⟨offset, skipping, known⟩ := f
  cases skipping <;> rfl

theorem poll_eq {log q : Bytes} {f : Follower} (hwithin : ¬ log.length < f.offset)
    (hdrop : log.drop f.offset = q) (size : ℕ) :
    poll codec (some log) size f = (consume codec f (q.take (maxLineBytes + 1))).map
      fun out => (report f out.2 size out.1, out.2) := by
  simp only [poll, if_neg hwithin, hdrop]
  by_cases hdata : q.take (maxLineBytes + 1) = []
  · rw [if_pos hdata, hdata, consume_nil]
    rfl
  · rw [if_neg hdata]
    cases consume codec f (q.take (maxLineBytes + 1)) <;> rfl

/-- One pass over the log. -/
theorem poll_spec {log p tail q : Bytes} {f : Follower} (hat : At log f p tail q) {size : ℕ}
    (hsize : log.length ≤ size) :
    ∃ new tail' q' g, At log g (p ++ new) tail' q' ∧
      g.lastTerminal =
        terminalAfter f.lastTerminal (eventsOf codec (lineEnds p.length (lines new))) ∧
      f.offset ≤ g.offset ∧
      (∀ polled h, poll codec (some log) size f = .ok (polled, h) ↔
        (∀ line ∈ lines new, line.length ≤ maxLineBytes → Survives codec line) ∧
        polled = report f g size (framesOf codec (lineEnds p.length (lines new))) ∧ h = g) ∧
      ((g.offset ≠ f.offset && g.offset < size) = false → Rested g q') := by
  have hoffset := hat.offset
  have hwithin : ¬ log.length < f.offset := by
    rw [hat.split, List.length_append, List.length_append]
    omega
  have hdrop : log.drop f.offset = q := by
    rw [hat.split, hoffset, ← List.append_assoc, ← List.length_append]
    exact List.drop_left
  obtain ⟨new, tail', q', g, hat', hmoves, hstay⟩ := consume_spec codec hat
  refine ⟨new, tail', q', g, hat', hmoves.terminal, hmoves.forward, ?_, ?_⟩
  · intro polled h
    rw [poll_eq codec hwithin hdrop]
    constructor
    · intro heq
      cases hout : consume codec f (q.take (maxLineBytes + 1)) with
      | error crash =>
        rw [hout] at heq
        cases heq
      | ok out =>
        rw [hout] at heq
        cases heq
        obtain ⟨hall, hframes, hg⟩ := (hmoves.ok_iff out.1 out.2).mp hout
        rw [hg, hframes]
        exact ⟨hall, rfl, rfl⟩
    · rintro ⟨hall, rfl, rfl⟩
      rw [(hmoves.ok_iff _ _).mpr ⟨hall, rfl, rfl⟩]
      rfl
  · intro hmore
    rw [Bool.and_eq_false_iff, decide_eq_false_iff_not, decide_eq_false_iff_not, not_not] at hmore
    rcases hmore with hsame | hend
    · exact hstay hsame
    · have hoffset' := hat'.offset
      have hlen := congrArg List.length hat'.split
      simp only [List.length_append] at hlen hoffset'
      have hnil : q' = [] := List.length_eq_zero_iff.mp (by omega)
      rw [hnil]
      exact ⟨List.not_mem_nil, Or.inl rfl⟩

/-- Where a client stands that no exception has cut off: the frames it has are those of the
complete lines that its follower moved past. -/
structure Inv (cursor : ℕ) (s : Session) : Prop where
  stands : ∃ p tail q, At s.bytes s.follower p tail q ∧ cursor ≤ p.length ∧
    s.frames = framesAfter codec cursor p ∧
    s.follower.lastTerminal = terminalAfter false (eventsOf codec (logLines p)) ∧
    ∀ item ∈ logLines p, cursor < item.1 → item.2.length ≤ maxLineBytes →
      Survives codec item.2
  last : ∀ log size polled, s.last = some (log, size, polled) → polled.more = false →
    s.frames = framesAfter codec cursor log ∧ polled.done = decision codec log size ∧
    ∀ item ∈ logLines log, cursor < item.1 → item.2.length ≤ maxLineBytes →
      Survives codec item.2

/-- A follower that rests has read all complete lines, and decides by the log alone. -/
theorem rested_spec {log p tail q : Bytes} {f : Follower} (hat : At log f p tail q)
    (hrested : Rested f q)
    (hterminal : f.lastTerminal = terminalAfter false (eventsOf codec (logLines p))) (size : ℕ) :
    logLines log = logLines p ∧ (f.lastTerminal && f.offset = size) = decision codec log size := by
  have hopen : newline ∉ tail ++ q := by
    rw [List.mem_append, not_or]
    exact ⟨hat.inLine, hrested.1⟩
  have hlines : logLines log = logLines p := by
    rw [hat.split, logLines_of_open hat.boundary hopen]
  have hend : endOf log = f.offset := by
    have hoffset := hat.offset
    have hskip := hat.skipping
    rw [endOf, hat.split, Lines.rest_append_terminated hat.boundary hopen,
      Lines.complete_append hat.boundary hopen]
    rcases hrested.2 with rfl | ⟨hskipping, hshort⟩
    · rw [List.append_nil]
      split at hskip
      · rw [if_neg (by omega), List.length_append]
        exact hoffset.symm
      · rw [hskip] at hoffset ⊢
        rw [if_pos (show ([] : Bytes).length ≤ maxLineBytes from Nat.zero_le _), hoffset]
        rfl
    · rw [hskipping] at hskip
      have htail : tail = [] := by simpa only [Bool.false_eq_true, if_false] using hskip
      rw [htail] at hoffset ⊢
      rw [List.nil_append, if_pos hshort, hoffset]
      rfl
  rw [decision, hlines, hend, hterminal]
  exact ⟨rfl, rfl⟩

theorem Session.run_cons (s : Session) (call : Call) (calls : List Call) :
    s.run codec (call :: calls) = (s.step codec call).run codec calls := rfl

/-- Growth of the log leaves the client where it stands. -/
theorem At.grow {log p tail q : Bytes} {f : Follower} (hat : At log f p tail q) (chunk : Bytes) :
    At (log ++ chunk) f p tail (q ++ chunk) :=
  ⟨by rw [hat.split]; simp only [List.append_assoc], hat.offset, hat.boundary, hat.inLine,
    hat.skipping⟩

theorem Inv.grow {cursor : ℕ} {s : Session} (h : Inv codec cursor s) (chunk : Bytes) :
    Inv codec cursor (s.step codec (.append chunk)) := by
  obtain ⟨p, tail, q, hat, hrest⟩ := h.stands
  exact ⟨⟨p, tail, q ++ chunk, hat.grow chunk, hrest⟩, fun _ _ _ heq => by cases heq⟩

/-- One pass of a client: it stays in the invariant unless an exception cuts it off, and none does
where every line to come is handled. A pass that reports more to read has moved on. -/
theorem Inv.pass {cursor : ℕ} {s : Session} (h : Inv codec cursor s) (halive : s.crashed = false)
    (during : Bytes) :
    ((s.step codec (.poll during)).crashed = false →
      Inv codec cursor (s.step codec (.poll during)) ∧
      ∃ polled, (s.step codec (.poll during)).last =
          some (s.bytes, (s.step codec (.poll during)).bytes.length, polled) ∧
        (polled.more = true → s.follower.offset < (s.step codec (.poll during)).follower.offset)) ∧
    ((∀ item ∈ logLines s.bytes, item.2.length ≤ maxLineBytes → Survives codec item.2) →
      (s.step codec (.poll during)).crashed = false) := by
  obtain ⟨p, tail, q, hat, hcursor, hframes, hterminal, hsurvives⟩ := h.stands
  obtain ⟨log, f, frames, last, crashed⟩ := s
  subst halive
  cases log with
  | none =>
    have hat' : At [] f p tail q := hat
    have hp : p = [] := (List.append_eq_nil_iff.mp hat'.split.symm).1
    subst hp
    refine ⟨fun _ => ⟨⟨⟨[], tail, q, hat, hcursor, ?_, hterminal, hsurvives⟩, ?_⟩,
      ⟨[], false, false⟩, rfl, fun hmore => by cases hmore⟩, fun _ => rfl⟩
    · exact (List.append_nil frames).trans hframes
    · intro log size polled heq _
      cases heq
      exact ⟨(List.append_nil frames).trans hframes, rfl, hsurvives⟩
  | some bytes =>
    have hat' : At bytes f p tail q := hat
    have hsize : bytes.length ≤ (bytes ++ during).length := by
      rw [List.length_append]
      exact Nat.le_add_right _ _
    obtain ⟨new, tail', q', g, hmoved, hlast, hforward, hok, hrest⟩ := poll_spec codec hat' hsize
    have hmore : logLines (p ++ new) = logLines p ++ lineEnds p.length (lines new) :=
      logLines_append hat'.boundary
    have hframes' : frames ++ framesOf codec (lineEnds p.length (lines new)) =
        framesAfter codec cursor (p ++ new) := by
      rw [framesAfter_append codec hat'.boundary hcursor, ← hframes]
    have hterminal' : g.lastTerminal =
        terminalAfter false (eventsOf codec (logLines (p ++ new))) := by
      rw [hmore, eventsOf_append, terminalAfter_append, ← hterminal, hlast]
    constructor
    · intro halive
      cases hpoll : poll codec (some bytes) (bytes ++ during).length f with
      | error crash =>
        have hcrash : (Session.step codec ⟨some bytes, f, frames, last, false⟩
            (.poll during)).crashed = true := by
          simp only [Session.step, Bool.false_eq_true, if_false, Option.map_some,
            Option.getD_some, hpoll]
        rw [hcrash] at halive
        cases halive
      | ok out =>
        obtain ⟨hall, hpolled, hg⟩ := (hok out.1 out.2).mp hpoll
        have hstep : Session.step codec ⟨some bytes, f, frames, last, false⟩ (.poll during) =
            ⟨some (bytes ++ during), g, frames ++ framesOf codec (lineEnds p.length (lines new)),
              some (bytes, (bytes ++ during).length, out.1), false⟩ := by
          simp only [Session.step, Bool.false_eq_true, if_false, Option.map_some,
            Option.getD_some, hpoll, hg, hpolled, report]
        have hsurvives' : ∀ item ∈ logLines (p ++ new), cursor < item.1 →
            item.2.length ≤ maxLineBytes → Survives codec item.2 := by
          intro item hitem hpast hshort
          rw [hmore, List.mem_append] at hitem
          rcases hitem with hitem | hitem
          · exact hsurvives item hitem hpast hshort
          · exact hall item.2 ((mem_lineEnds_iff p.length).mp ⟨item.1, hitem⟩) hshort
        rw [hstep]
        refine ⟨⟨⟨p ++ new, tail', q' ++ during, hmoved.grow during, ?_, hframes', hterminal',
          hsurvives'⟩, ?_⟩, out.1, rfl, ?_⟩
        · rw [List.length_append]
          exact Nat.le_add_right_of_le hcursor
        · intro log size polled heq hdone
          cases heq
          rw [hpolled] at hdone ⊢
          obtain ⟨hlines, hdecision⟩ := rested_spec codec hmoved (hrest hdone) hterminal'
            (bytes ++ during).length
          rw [hlines]
          refine ⟨?_, hdecision, hsurvives'⟩
          rw [framesAfter, hlines]
          exact hframes'
        · intro hprogress
          rw [hpolled] at hprogress
          have hne : g.offset ≠ f.offset :=
            of_decide_eq_true (Bool.and_eq_true_iff.mp hprogress).1
          exact Nat.lt_of_le_of_ne hforward (Ne.symm hne)
    · intro hhandled
      have hinitial : logLines (p ++ new) <+: logLines bytes :=
        logLines_initial hmoved.boundary ⟨tail' ++ q', hmoved.split.symm⟩
      have hall : ∀ line ∈ lines new, line.length ≤ maxLineBytes → Survives codec line := by
        intro line hline hshort
        obtain ⟨past, hitem⟩ := (mem_lineEnds_iff p.length).mpr hline
        refine hhandled (past, line) (hinitial.subset ?_) hshort
        rw [hmore]
        exact List.mem_append_right _ hitem
      have hpoll := (hok _ _).mpr ⟨hall, rfl, rfl⟩
      simp only [Session.step, Bool.false_eq_true, if_false, Option.map_some, Option.getD_some,
        hpoll]

theorem alive_of_step {s : Session} {call : Call} (h : (s.step codec call).crashed = false) :
    s.crashed = false := by
  cases call with
  | append chunk => exact h
  | poll during =>
    cases hs : s.crashed with
    | false => rfl
    | true =>
      simp only [Session.step, hs, if_true] at h
      cases h

theorem alive_of_run {s : Session} {calls : List Call} (h : (s.run codec calls).crashed = false) :
    s.crashed = false := by
  induction calls generalizing s with
  | nil => exact h
  | cons call calls ih => exact alive_of_step codec (ih h)

theorem bytes_step (s : Session) (call : Call) : s.bytes <+: (s.step codec call).bytes := by
  cases call with
  | append chunk => exact List.prefix_append _ _
  | poll during =>
    have hlog : (s.step codec (.poll during)).log = s.log.map fun bytes => bytes ++ during := by
      unfold Session.step
      dsimp only
      split
      · rfl
      · split <;> rfl
    rw [Session.bytes, Session.bytes, hlog]
    cases s.log with
    | none => exact List.prefix_refl _
    | some bytes => exact List.prefix_append _ _

theorem bytes_run (s : Session) (calls : List Call) : s.bytes <+: (s.run codec calls).bytes := by
  induction calls generalizing s with
  | nil => exact List.prefix_refl _
  | cons call calls ih => exact (bytes_step codec s call).trans (ih _)

theorem Inv.run {cursor : ℕ} {s : Session} (h : Inv codec cursor s) {calls : List Call}
    (halive : (s.run codec calls).crashed = false) : Inv codec cursor (s.run codec calls) := by
  induction calls generalizing s with
  | nil => exact h
  | cons call calls ih =>
    rw [Session.run_cons] at halive ⊢
    have hstep := alive_of_run codec halive
    cases call with
    | append chunk => exact ih (h.grow codec chunk) halive
    | poll during =>
      obtain ⟨hpass, -⟩ := h.pass codec (alive_of_step codec hstep) during
      exact ih (hpass hstep).1 halive

theorem Handled.of_initial {bytes log : Bytes} (h : Handled codec log) (hbytes : bytes <+: log) :
    Handled codec bytes := by
  obtain ⟨p, q, rfl, hp, hq⟩ := Lines.exists_complete bytes
  intro item hitem hshort
  rw [logLines_of_open hp hq] at hitem
  have hinitial : p <+: log := (List.prefix_append p q).trans hbytes
  exact h item ((logLines_initial hp hinitial).subset hitem) hshort

/-- Where the lines of the log as it becomes are handled, no exception ends the stream. -/
theorem Inv.alive_run {cursor : ℕ} {s : Session} (h : Inv codec cursor s)
    (halive : s.crashed = false) {calls : List Call} {log : Bytes} (hhandled : Handled codec log)
    (hlog : (s.run codec calls).bytes <+: log) : (s.run codec calls).crashed = false := by
  induction calls generalizing s with
  | nil => exact halive
  | cons call calls ih =>
    rw [Session.run_cons] at hlog ⊢
    cases call with
    | append chunk => exact ih (h.grow codec chunk) halive hlog
    | poll during =>
      obtain ⟨hpass, hhandles⟩ := h.pass codec halive during
      have hbytes : s.bytes <+: log :=
        ((bytes_step codec s _).trans (bytes_run codec _ calls)).trans hlog
      have hstep := hhandles (hhandled.of_initial codec hbytes)
      exact ih (hpass hstep).1 hstep hlog

theorem poll_bytes (s : Session) : (s.step codec (.poll [])).bytes = s.bytes := by
  have hlog : (s.step codec (.poll [])).log = s.log := by
    have hsame : s.log.map (fun bytes => bytes ++ []) = s.log := by
      cases s.log with
      | none => rfl
      | some bytes => exact congrArg some (List.append_nil bytes)
    unfold Session.step
    dsimp only
    split
    · exact hsame
    · split <;> exact hsame
  rw [Session.bytes, hlog]
  rfl

theorem polls_bytes (s : Session) (n : ℕ) :
    (s.run codec (List.replicate n (.poll []))).bytes = s.bytes := by
  induction n generalizing s with
  | zero => rfl
  | succ n ih => rw [List.replicate_succ, Session.run_cons, ih, poll_bytes]

theorem Inv.offset_le {cursor : ℕ} {s : Session} (h : Inv codec cursor s) :
    s.follower.offset ≤ s.bytes.length := by
  obtain ⟨p, tail, q, hat, -⟩ := h.stands
  rw [hat.offset, hat.split, List.length_append, List.length_append]
  omega

/-- Passes over a log that rests come to an end, with all of it read. -/
theorem Inv.drains {cursor : ℕ} {s : Session} (h : Inv codec cursor s) (halive : s.crashed = false)
    (hhandled : Handled codec s.bytes) :
    ∃ n polled, (s.run codec (List.replicate n (.poll []))).last =
      some (s.bytes, s.bytes.length, polled) ∧ polled.more = false := by
  generalize hunread : s.bytes.length - s.follower.offset = unread
  induction unread using Nat.strong_induction_on generalizing s with
  | _ unread ih =>
    obtain ⟨hpass, hhandles⟩ := h.pass codec halive []
    have hstep := hhandles hhandled
    obtain ⟨hinv, polled, hlast, hprogress⟩ := hpass hstep
    rw [poll_bytes] at hlast
    cases hmore : polled.more with
    | false => exact ⟨1, polled, hlast, hmore⟩
    | true =>
      have hforward := hprogress hmore
      have hend := hinv.offset_le
      rw [poll_bytes] at hend
      obtain ⟨n, last, hn⟩ := ih (s.bytes.length - (s.step codec (.poll [])).follower.offset)
        (by omega) hinv hstep (by rwa [poll_bytes]) (by rw [poll_bytes])
      rw [poll_bytes] at hn
      exact ⟨n + 1, last, by rw [List.replicate_succ, Session.run_cons]; exact hn⟩

/-- A client in the invariant that no exception cut off has what it is owed. -/
theorem Inv.exact {cursor : ℕ} {s : Session} (h : Inv codec cursor s) (halive : s.crashed = false)
    (hhandled : Handled codec s.bytes) : Exact codec cursor s := by
  refine ⟨halive, ?_, fun log size polled hlast hmore => ?_, h.drains codec halive hhandled⟩
  · obtain ⟨p, tail, q, hat, hcursor, hframes, -⟩ := h.stands
    rw [hframes, hat.split, framesAfter_append codec hat.boundary hcursor]
    exact List.prefix_append _ _
  · obtain ⟨hframes, hdone, -⟩ := h.last log size polled hlast hmore
    exact ⟨hframes, hdone⟩

theorem inv_start : Inv codec 0 Session.start := by
  refine ⟨⟨[], [], [], ⟨rfl, rfl, Or.inl rfl, List.not_mem_nil, rfl⟩, Nat.le_refl 0, rfl, rfl,
    fun item hitem => absurd hitem List.not_mem_nil⟩, fun _ _ _ hlast => ?_⟩
  cases hlast

theorem newline_not_mem_of_mem_lines {p line : Bytes} (h : line ∈ lines p) : newline ∉ line :=
  Lines.newline_not_mem_of_mem_records (List.dropLast_subset _ h)

theorem terminated_joined (ls : List Bytes) : Terminated (joined ls) := by
  rcases List.eq_nil_or_concat ls with rfl | ⟨before, line, rfl⟩
  · exact Or.inl rfl
  · refine Or.inr ⟨joined before ++ line, ?_⟩
    simp only [joined, List.concat_eq_append, List.flatMap_append, List.flatMap_singleton,
      List.append_assoc]

/-- A line of a log, with what stands before it and after it. -/
theorem exists_of_mem_logLines {p : Bytes} (hp : Terminated p) {item : ℕ × Bytes}
    (h : item ∈ logLines p) : ∃ r s, p = r ++ (item.2 ++ [newline]) ++ s ∧ Terminated r ∧
      newline ∉ item.2 ∧ item.1 = (r ++ (item.2 ++ [newline])).length := by
  have hsplit : ∀ base ls, item ∈ lineEnds base ls → ∃ before after,
      ls = before ++ item.2 :: after ∧ item.1 = base + (joined before).length +
        item.2.length + 1 := by
    intro base ls hitem
    induction ls generalizing base with
    | nil => exact absurd hitem List.not_mem_nil
    | cons line ls ih =>
      rcases List.mem_cons.mp hitem with rfl | hitem
      · exact ⟨[], ls, rfl, rfl⟩
      · obtain ⟨before, after, rfl, hpast⟩ := ih _ hitem
        refine ⟨line :: before, after, rfl, ?_⟩
        simp only [joined, List.flatMap_cons, List.length_append, List.length_singleton] at hpast ⊢
        omega
  obtain ⟨before, after, hls, hpast⟩ := hsplit 0 _ h
  refine ⟨joined before, joined after, ?_, terminated_joined before, ?_, ?_⟩
  · rw [← joined_lines hp, hls]
    simp only [joined, List.flatMap_append, List.flatMap_cons, List.append_assoc]
  · exact newline_not_mem_of_mem_lines (hls ▸ List.mem_append_right before List.mem_cons_self)
  · simp only [List.length_append, List.length_singleton]
    omega

theorem previousEventIsTerminal_of {log : Bytes} {offset start : ℕ}
    (hstart : offset - maxLineBytes - 1 = start) {data : Bytes}
    (hdata : (log.drop start).take (offset - start) = data) {line : Bytes}
    (hline : (if data.getLast? = some newline then Lines.rest data.dropLast else []) = line)
    {event : PyDict} (hparse : parseLine codec line = .ok (some event)) :
    previousEventIsTerminal codec log offset = isTerminal event := by
  subst hline hdata hstart
  have hbind : previousEventIsTerminal codec log offset =
      (Except.ok (some event) : Except Crash (Option PyDict)).bind fun event =>
        event.elim (.ok false) isTerminal := by
    rw [← hparse]
    unfold previousEventIsTerminal
    refine congrArg (Except.bind _) (funext fun event => ?_)
    cases event <;> rfl
  rw [hbind]
  rfl

/-- What stands just before a cursor is read back as the line that ends there. -/
theorem new_of_line {log r line s : Bytes} (hlog : log = r ++ (line ++ [newline]) ++ s)
    (hr : Terminated r) (hline : newline ∉ line) (hshort : line.length ≤ maxLineBytes)
    {event : PyDict} (hevent : eventOf codec line = some event) (hsurvives : Survives codec line) :
    Follower.new codec log (r ++ (line ++ [newline])).length =
      .ok ⟨(r ++ (line ++ [newline])).length, false, terminalEvent event⟩ := by
  have hlen : (r ++ (line ++ [newline])).length = r.length + line.length + 1 := by
    simp only [List.length_append, List.length_singleton]
    omega
  generalize hstart : (r ++ (line ++ [newline])).length - maxLineBytes - 1 = start
  have hwithin : start ≤ r.length := by omega
  have hdata : (log.drop start).take ((r ++ (line ++ [newline])).length - start) =
      r.drop start ++ line ++ [newline] := by
    rw [hlog, ← List.drop_take, List.take_left', List.drop_append_of_le_length hwithin,
      List.append_assoc]
    rfl
  have hparse : parseLine codec line = .ok (some event) ∧
      isHashable (event.get "type") = true := by
    rcases parseLine_cases codec hshort with ⟨-, hnot⟩ | ⟨-, -, hnone⟩ | ⟨other, hparse, hother, hiff⟩
    · exact absurd hsurvives hnot
    · rw [hnone] at hevent
      cases hevent
    · rw [hevent] at hother
      cases hother
      exact ⟨hparse, (hiff.mp hsurvives).2⟩
  have hlast : previousEventIsTerminal codec log (r ++ (line ++ [newline])).length =
      .ok (terminalEvent event) := by
    have hbefore : (if (r.drop start ++ line ++ [newline]).getLast? = some newline then
        Lines.rest (r.drop start ++ line ++ [newline]).dropLast else []) = line := by
      rw [List.getLast?_concat, if_pos rfl, List.dropLast_concat,
        Lines.rest_append_terminated (Lines.terminated_drop hr start) hline]
    rw [previousEventIsTerminal_of codec hstart hdata hbefore hparse.1]
    exact isTerminal_eq hparse.2
  rw [Follower.new, if_pos (by omega), hlast]
  rfl

theorem le_of_mem_logLines {p : Bytes} (hp : Terminated p) {item : ℕ × Bytes}
    (h : item ∈ logLines p) : item.1 ≤ p.length := by
  obtain ⟨r, s, hsplit, -, -, hpast⟩ := exists_of_mem_logLines hp h
  rw [hpast]
  have hlen := congrArg List.length hsplit
  rw [List.length_append] at hlen
  omega

theorem framesAfter_end {p : Bytes} (hp : Terminated p) : framesAfter codec p.length p = [] := by
  rw [framesAfter, List.filter_eq_nil_iff]
  intro frame hframe
  obtain ⟨event, hitem, rfl⟩ := List.mem_map.mp hframe
  obtain ⟨item, hline, hevent⟩ := List.mem_filterMap.mp hitem
  obtain ⟨-, -, rfl⟩ := Option.map_eq_some_iff.mp hevent
  have hle := le_of_mem_logLines hp hline
  exact fun hlater => Nat.not_lt.mpr hle (of_decide_eq_true hlater)

/-- A client that reconnects at a delivered id stands just behind that frame. -/
theorem Inv.resume {s : Session} (h : Inv codec 0 s) {frame : Frame} (hframe : frame ∈ s.frames) :
    ∃ f, Follower.new codec s.bytes frame.id = .ok f ∧ Inv codec frame.id (s.resume f) := by
  obtain ⟨p, tail, q, hat, -, hframes, -, hsurvives⟩ := h.stands
  rw [hframes] at hframe
  obtain ⟨event, hitem, rfl⟩ := List.mem_map.mp (List.mem_filter.mp hframe).1
  obtain ⟨item, hline, hevent⟩ := List.mem_filterMap.mp hitem
  obtain ⟨event, heventOf, rfl⟩ := Option.map_eq_some_iff.mp hevent
  have hshort : item.2.length ≤ maxLineBytes := by
    by_contra hlong
    rw [eventOf, if_pos (Nat.not_le.mp hlong)] at heventOf
    cases heventOf
  have hline' := hsurvives item hline (lt_of_mem_lineEnds hline) hshort
  obtain ⟨r, rest, hsplit, hr, hopen, hpast⟩ := exists_of_mem_logLines hat.boundary hline
  have hlog : s.bytes = r ++ (item.2 ++ [newline]) ++ (rest ++ (tail ++ q)) := by
    rw [hat.split, hsplit, List.append_assoc _ rest]
  have hboundary : Terminated (r ++ (item.2 ++ [newline])) := Lines.terminated_append_line r item.2
  have hid : (frameOf codec (item.1, event)).id = (r ++ (item.2 ++ [newline])).length := hpast
  have hlines : logLines (r ++ (item.2 ++ [newline])) =
      logLines r ++ [((r ++ (item.2 ++ [newline])).length, item.2)] := by
    rw [logLines_append hr, lines_line hopen]
    simp only [lineEnds, List.length_append, List.length_singleton, Nat.add_assoc]
  rw [hid]
  refine ⟨_, new_of_line codec hlog hr hopen hshort heventOf hline', ⟨_, [], _,
    ⟨hlog, rfl, hboundary, List.not_mem_nil, rfl⟩, Nat.le_refl _,
    (framesAfter_end codec hboundary).symm, ?_, ?_⟩, fun _ _ _ hlast => by cases hlast⟩
  · rw [hlines, eventsOf_append, terminalAfter_append]
    simp only [eventsOf, List.filterMap_cons, heventOf, Option.map_some, List.filterMap_nil]
    rfl
  · intro other hother hlater
    exact absurd (le_of_mem_logLines hboundary hother) (Nat.not_le.mpr hlater)

/-- Following is exact and resumable on a log exactly if no exception leaves the handling of one
of its complete lines. -/
theorem follow_exact_iff (log : Bytes) : FollowsExactly codec log ↔ Handled codec log := by
  constructor
  · intro hfollows item hitem hshort
    have hgrown : (Session.start.step codec (.append log)).bytes = log := rfl
    obtain ⟨hexact, -⟩ := hfollows [.append log] (List.prefix_refl _)
    obtain ⟨n, polled, hlast, hmore⟩ := hexact.drains
    have hbytes : (Session.start.run codec (.append log :: List.replicate n (.poll []))).bytes =
        log := polls_bytes codec (Session.start.step codec (.append log)) n
    obtain ⟨hread, -⟩ := hfollows (.append log :: List.replicate n (.poll []))
      ⟨[], by rw [List.append_nil, hbytes]⟩
    have hinv := (inv_start codec).run codec hread.alive
    exact (hinv.last log log.length polled hlast hmore).2.2 item hitem
      (lt_of_mem_lineEnds hitem) hshort
  · intro hhandled calls hlog
    have halive := (inv_start codec).alive_run codec rfl hhandled hlog
    have hinv := (inv_start codec).run codec halive
    refine ⟨hinv.exact codec halive (hhandled.of_initial codec hlog), fun frame hframe => ?_⟩
    obtain ⟨f, hnew, hresumed⟩ := hinv.resume codec hframe
    refine ⟨f, hnew, fun later hlater => ?_⟩
    have halive' := hresumed.alive_run codec rfl hhandled hlater
    exact (hresumed.run codec halive').exact codec halive' (hhandled.of_initial codec hlater)

/-- The bytes of an object whose type is an empty list. -/
def listTypeLine : Bytes := [123, 34, 116, 121, 112, 101, 34, 58, 32, 91, 93, 125]

/-- `json` on that line. -/
def listTypeCodec : Codec where
  loads line := if line = listTypeLine then .value (.dict [("type", .list [])]) else .valueError
  dumps _ := some "\x7b\"type\": []\x7d"

/-- An event whose type is a list ends the stream with a `TypeError`. -/
theorem follow_exact_list_type_crashes :
    ¬ FollowsExactly listTypeCodec (listTypeLine ++ [newline]) := by
  intro h
  have hcrashed : (Session.start.run listTypeCodec
      [.append (listTypeLine ++ [newline]), .poll []]).crashed = true := by decide +kernel
  have hbytes : (Session.start.run listTypeCodec
      [.append (listTypeLine ++ [newline]), .poll []]).bytes = listTypeLine ++ [newline] := by
    decide +kernel
  have halive := (h _ ⟨[], by rw [List.append_nil, hbytes]⟩).1.alive
  rw [hcrashed] at halive
  cases halive

end Recertia.EventFollow
