import Recertia.Engine.Honest

/-! Which attempts the no-progress rule of the retry guard compares. -/
namespace Recertia.Graph

open FileTree (Tree)
open Transition

section History

/-- `validate` scores the attempt, and so does a `join` that has a merged artifact; no other node
touches the history. -/
theorem nodeFuncs_history {py : Platform} {ctx : NodeContext} {node : Node}
    {snapshots : SnapshotStore} {s : RunState} {t : Tree} {o : NodeOutcome}
    (h : nodeFuncs py ctx node snapshots s t = .ok o) :
    (o.state.resultsHistory = s.resultsHistory ∧ node ≠ .validate ∧
      (node = .join → scoredWorkdir ctx s t = none)) ∨
    ∃ vector, o.state.resultsHistory = s.resultsHistory ++ [vector] ∧
      (node = .validate ∨ node = .join ∧ (scoredWorkdir ctx s t).isSome = true) := by
  cases node with
  | validate =>
    obtain ⟨score, -, rfl⟩ := validate_spec h
    exact Or.inr ⟨score.results, rfl, Or.inl rfl⟩
  | join =>
    rcases join_spec h with ⟨hgap, rfl⟩ | ⟨-, hnone, signal, rfl⟩ |
      ⟨-, workdir, score, winner, audit, hsome, -, -, rfl⟩
    · exact Or.inl ⟨rfl, (by decide), fun _ => if_pos hgap⟩
    · exact Or.inl ⟨rfl, (by decide), fun _ => hnone⟩
    · exact Or.inr ⟨score.results, rfl, Or.inr ⟨rfl, by rw [hsome]; rfl⟩⟩
  | solve =>
    refine Or.inl ⟨?_, (by decide), fun hnode => (by cases hnode)⟩
    obtain ⟨path, -, ⟨-, run, -, hclose⟩ | ⟨-, n, hclose, -⟩⟩ := solve_spec h
    · obtain ⟨spent, ref, signal, hstate⟩ := hclose.state
      rw [hstate]
      rfl
    · obtain ⟨spent, ref, signal, hstate⟩ := hclose.state
      rw [hstate]
  | fanOut =>
    refine Or.inl ⟨?_, (by decide), fun hnode => (by cases hnode)⟩
    rcases fanOut_spec h with ⟨-, hstate | hstate⟩ | ⟨exhausted, rfl⟩ | ⟨branches, requested, -, rfl⟩
    · rw [hstate]
    · rw [hstate]
    · rfl
    · rfl
  | intake =>
    obtain ⟨criteria, -, rfl⟩ := intake_spec h
    exact Or.inl ⟨rfl, (by decide), fun hnode => (by cases hnode)⟩
  | plan =>
    cases h
    obtain ⟨strategy, chosen, guide, hstate⟩ := (planState_planned ctx s).state
    have hplan : (plan ctx s t).state =
      { s with strategy, chosen, executionGuide := guide } := hstate
    rw [hplan]
    exact Or.inl ⟨rfl, (by decide), fun hnode => (by cases hnode)⟩
  | classifyFailure =>
    obtain ⟨signal, -, rfl⟩ := classifyFailure_spec h
    exact Or.inl ⟨rfl, (by decide), fun hnode => (by cases hnode)⟩
  | evolve =>
    obtain ⟨clean, rest, tree, move, -, -, rfl⟩ := evolve_spec h
    exact Or.inl ⟨rfl, (by decide), fun hnode => (by cases hnode)⟩
  | distill =>
    obtain ⟨draft, verdict, hstate, -⟩ := distill_spec h
    rw [hstate]
    exact Or.inl ⟨rfl, (by decide), fun hnode => (by cases hnode)⟩
  | store =>
    have ho := store_spec h
    subst ho
    exact Or.inl ⟨rfl, (by decide), fun hnode => (by cases hnode)⟩
  | retrieve | review | recordDeadEnd | rejectDraft | finalize =>
    cases h
    exact Or.inl ⟨rfl, (by decide), fun hnode => (by cases hnode)⟩

/-- `solve` opens an attempt. -/
theorem attemptNo_of_solve {py : Platform} {ctx : NodeContext} {s : RunState} {t : Tree}
    {o : NodeOutcome} (h : solve py ctx s t = .ok o) : o.state.attemptNo = s.attemptNo + 1 := by
  obtain ⟨path, -, ⟨-, run, -, hclose⟩ | ⟨-, n, hclose, -⟩⟩ := solve_spec h
  · obtain ⟨spent, ref, signal, hstate⟩ := hclose.state
    rw [hstate]
    rfl
  · obtain ⟨spent, ref, signal, hstate⟩ := hclose.state
    rw [hstate]

end History

section Compared

/-- The history variable: the attempt that each vector of `results_history` scores. -/
def scoredIn (w : World) (_ : Label) (w' : World) (attempts : List ℕ) : List ℕ :=
  if w'.state.resultsHistory.length = w.state.resultsHistory.length then attempts
  else attempts ++ [w'.state.attemptNo]

/-- The vector that an attempt was judged by: its last. -/
def verdictOf (s : RunState) (attempts : List ℕ) (n : ℕ) : Option (List CriterionResult) :=
  (((attempts.zip s.resultsHistory).filter fun entry => entry.1 = n).getLast?).map Prod.snd

/-- The guard compares the two most recent different attempts; so it never refuses the first one,
and always one that was judged by the same vector as the one before. -/
structure ComparesAttempts (s : RunState) (attempts : List ℕ) : Prop where
  recent : ∀ earlier previous last, attempts = earlier ++ [previous, last] →
    previous < last ∧ ∀ n ∈ earlier, n ≤ previous
  first : s.attemptNo = 1 → identicalResults s = false
  repeated : ∀ n vector, s.attemptNo = n + 1 → verdictOf s attempts n = some vector →
    verdictOf s attempts (n + 1) = some vector → identicalResults s = true

theorem exists_last_two {α : Type*} {xs : List α} (h : 2 ≤ xs.length) :
    ∃ earlier previous last, xs = earlier ++ [previous, last] := by
  have hne : xs ≠ [] := List.ne_nil_of_length_pos (by omega)
  obtain ⟨rest, last, rfl⟩ := (List.eq_nil_or_concat' xs).resolve_left hne
  rw [List.length_append, List.length_singleton] at h
  have hrest : rest ≠ [] := List.ne_nil_of_length_pos (by omega)
  obtain ⟨earlier, previous, rfl⟩ := (List.eq_nil_or_concat' rest).resolve_left hrest
  exact ⟨earlier, previous, last, List.append_assoc ..⟩

theorem identicalResults_snoc {s : RunState} {earlier : List (List CriterionResult)}
    {previous last : List CriterionResult}
    (h : s.resultsHistory = earlier ++ [previous, last]) :
    identicalResults s = (last == previous) := by
  rw [identicalResults, h, List.reverse_append]
  rfl

theorem identicalResults_short {s : RunState} (h : s.resultsHistory.length < 2) :
    identicalResults s = false := by
  rw [identicalResults]
  split
  · rename_i last previous rest hrev
    have hlength := congrArg List.length hrev
    rw [List.length_reverse, List.length_cons, List.length_cons] at hlength
    omega
  · rfl

theorem verdictOf_last_two {s : RunState} {earlier : List ℕ} {n : ℕ}
    {history : List (List CriterionResult)} {previous last : List CriterionResult}
    (hhistory : s.resultsHistory = history ++ [previous, last])
    (hlength : earlier.length = history.length) (hbelow : ∀ m ∈ earlier, m < n) :
    verdictOf s (earlier ++ [n, n + 1]) n = some previous ∧
      verdictOf s (earlier ++ [n, n + 1]) (n + 1) = some last := by
  have hzip : (earlier ++ [n, n + 1]).zip s.resultsHistory =
      earlier.zip history ++ [(n, previous), (n + 1, last)] := by
    rw [hhistory, List.zip_append hlength]
    rfl
  have hskip : ∀ m, n ≤ m →
      (earlier.zip history).filter (fun entry => decide (entry.1 = m)) = [] := by
    intro m hm
    apply List.filter_eq_nil_iff.mpr
    intro entry hentry heq
    have hlt := hbelow entry.1 (List.of_mem_zip hentry).1
    have hsame := of_decide_eq_true heq
    omega
  constructor
  · rw [verdictOf, hzip, List.filter_append, hskip n le_rfl]
    simp
  · rw [verdictOf, hzip, List.filter_append, hskip (n + 1) (Nat.le_succ n)]
    simp

/-- With one vector for each attempt the guard compares what it should. -/
theorem compares_of_increasing {s : RunState} {attempts : List ℕ}
    (haligned : attempts.length = s.resultsHistory.length)
    (hincreasing : attempts.Pairwise (· < ·)) (hpos : ∀ n ∈ attempts, 1 ≤ n)
    (hle : ∀ n ∈ attempts, n ≤ s.attemptNo) : ComparesAttempts s attempts := by
  refine ⟨?_, ?_, ?_⟩
  · rintro earlier previous last rfl
    obtain ⟨-, hlast, hcross⟩ := List.pairwise_append.mp hincreasing
    refine ⟨(List.pairwise_cons.mp hlast).1 last List.mem_cons_self, fun n hn => ?_⟩
    exact le_of_lt (hcross n hn previous List.mem_cons_self)
  · intro hone
    apply identicalResults_short
    by_contra hlength
    have htwo : 2 ≤ attempts.length := by omega
    obtain ⟨earlier, previous, last, rfl⟩ := exists_last_two htwo
    obtain ⟨-, hlast, -⟩ := List.pairwise_append.mp hincreasing
    have hlt : previous < last := (List.pairwise_cons.mp hlast).1 last List.mem_cons_self
    have hprevious := hpos previous (List.mem_append_right _ List.mem_cons_self)
    have hbound := hle last (List.mem_append_right _ (List.mem_cons_of_mem _ List.mem_cons_self))
    omega
  · intro n vector hnext hbefore hafter
    have hmem : ∀ m, verdictOf s attempts m = some vector → m ∈ attempts := by
      intro m hm
      obtain ⟨entry, hentry, -⟩ := Option.map_eq_some_iff.mp hm
      obtain ⟨hin, hkey⟩ := List.mem_filter.mp (List.mem_of_getLast? hentry)
      rw [← of_decide_eq_true hkey]
      exact (List.of_mem_zip hin).1
    have hn := hmem n hbefore
    have hsucc := hmem (n + 1) hafter
    -- Both attempts have a vector, so they are the last two.
    have htwo : 2 ≤ attempts.length := by
      by_contra hshort
      have hpositive := List.length_pos_of_mem hn
      obtain ⟨only, honly⟩ := List.length_eq_one_iff.mp (by omega : attempts.length = 1)
      rw [honly, List.mem_singleton] at hn hsucc
      omega
    obtain ⟨earlier, previous, last, rfl⟩ := exists_last_two htwo
    obtain ⟨-, hpair, hcross⟩ := List.pairwise_append.mp hincreasing
    have hlt : previous < last := (List.pairwise_cons.mp hpair).1 last List.mem_cons_self
    have hlast : last ≤ s.attemptNo :=
      hle last (List.mem_append_right _ (List.mem_cons_of_mem _ List.mem_cons_self))
    have hbound : ∀ m ∈ earlier ++ [previous, last], m = last ∨ m ≤ previous := by
      intro m hm
      rcases List.mem_append.mp hm with hm | hm
      · exact Or.inr (le_of_lt (hcross m hm previous List.mem_cons_self))
      · rcases List.mem_cons.mp hm with rfl | hm
        · exact Or.inr le_rfl
        · exact Or.inl (List.mem_singleton.mp hm)
    have hlastEq : last = n + 1 := by
      rcases hbound (n + 1) hsucc with h | h <;> omega
    have hpreviousEq : previous = n := by
      rcases hbound n hn with h | h <;> omega
    subst hlastEq hpreviousEq
    have hhistory : 2 ≤ s.resultsHistory.length := by omega
    obtain ⟨history, before, after, hsplit⟩ := exists_last_two hhistory
    have hlength : earlier.length = history.length := by
      rw [hsplit, List.length_append, List.length_append] at haligned
      simpa using haligned
    obtain ⟨hfirst, hsecond⟩ := verdictOf_last_two hsplit hlength
      fun m hm => hcross m hm previous List.mem_cons_self
    rw [hfirst] at hbefore
    rw [hsecond] at hafter
    cases hbefore
    cases hafter
    rw [identicalResults_snoc hsplit, beq_self_eq_true]

end Compared

section Runs

/-- The nodes behind the last verdict of a run. -/
def isDecided : Node → Bool
  | .distill => true
  | .review => true
  | .store => true
  | .recordDeadEnd => true
  | .rejectDraft => true
  | .finalize => true
  | _ => false

theorem source_of_target_validate : ∀ r ∈ routes, r.target = .validate → r.source = .solve := by
  decide

theorem source_of_target_join : ∀ r ∈ routes, r.target = .join → r.source = .validate := by decide

theorem target_of_decided : ∀ r ∈ routes, isDecided r.source = true → isDecided r.target = true := by
  decide

theorem target_of_join : ∀ r ∈ routes, r.source = .join →
    r.target = .distill ∨ r.target = .classifyFailure := by decide

/-- What every checkpoint keeps about the attempts that were scored: until the verdict that ends the
run, each has one vector. -/
structure Tagged (node : Node) (s : RunState) (attempts : List ℕ) : Prop where
  aligned : attempts.length = s.resultsHistory.length
  pos : ∀ n ∈ attempts, 1 ≤ n
  le : ∀ n ∈ attempts, n ≤ s.attemptNo
  increasing : isDecided node = false → attempts.Pairwise (· < ·)
  fresh : node = .validate → 1 ≤ s.attemptNo ∧ ∀ n ∈ attempts, n < s.attemptNo
  scored : node = .join → 1 ≤ s.attemptNo ∧ attempts.getLast? = some s.attemptNo

/-- A join that goes to `classify_failure` has stopped before it scored: a branch is missing, a
decomposition branch has failed or their files conflict. -/
def JoinsUnscored (w : World) (l : Label) (w' : World) : Prop :=
  ∀ ctx, l = .hop ctx → w.node = .join → w'.node = .classifyFailure →
    scoredWorkdir ctx w.state w.workdir = none

theorem Tagged.compares {s : RunState} {attempts : List ℕ}
    (h : Tagged .classifyFailure s attempts) : ComparesAttempts s attempts :=
  compares_of_increasing h.aligned (h.increasing rfl) h.pos h.le

/-- A node that scores nothing, and opens no attempt. -/
theorem Tagged.kept {node target : Node} {s s' : RunState} {attempts : List ℕ}
    (h : Tagged node s attempts) (hhistory : s'.resultsHistory = s.resultsHistory)
    (hattempt : s'.attemptNo = s.attemptNo)
    (hdecided : isDecided target = false → isDecided node = false)
    (hvalidate : target ≠ .validate) (hjoin : target ≠ .join) : Tagged target s' attempts where
  aligned := by rw [h.aligned, hhistory]
  pos := h.pos
  le := by rw [hattempt]; exact h.le
  increasing := fun htarget => h.increasing (hdecided htarget)
  fresh := fun htarget => absurd htarget hvalidate
  scored := fun htarget => absurd htarget hjoin

/-- A node that opens an attempt: what was scored so far is of earlier ones. -/
theorem Tagged.opened {node target : Node} {s s' : RunState} {attempts : List ℕ}
    (h : Tagged node s attempts) (hnode : isDecided node = false)
    (hhistory : s'.resultsHistory = s.resultsHistory) (hattempt : s'.attemptNo = s.attemptNo + 1)
    (hjoin : target ≠ .join) : Tagged target s' attempts where
  aligned := by rw [h.aligned, hhistory]
  pos := h.pos
  le := by
    intro n hn
    have hle := h.le n hn
    omega
  increasing := fun _ => h.increasing hnode
  fresh := by
    intro _
    refine ⟨by omega, fun n hn => ?_⟩
    have hle := h.le n hn
    omega
  scored := fun htarget => absurd htarget hjoin

/-- A node that scores the attempt. -/
theorem Tagged.extended {node target : Node} {s s' : RunState} {attempts : List ℕ}
    {vector : List CriterionResult} (h : Tagged node s attempts)
    (hgrown : s'.resultsHistory = s.resultsHistory ++ [vector])
    (hattempt : s'.attemptNo = s.attemptNo) (hpos : 1 ≤ s.attemptNo)
    (hnew : isDecided target = false → isDecided node = false ∧ ∀ n ∈ attempts, n < s.attemptNo)
    (hvalidate : target ≠ .validate) : Tagged target s' (attempts ++ [s'.attemptNo]) := by
  have hmem : ∀ n ∈ attempts ++ [s'.attemptNo], n ∈ attempts ∨ n = s'.attemptNo := by
    intro n hn
    rcases List.mem_append.mp hn with hn | hn
    · exact Or.inl hn
    · exact Or.inr (List.mem_singleton.mp hn)
  refine ⟨?_, ?_, ?_, ?_, fun htarget => absurd htarget hvalidate, ?_⟩
  · rw [hgrown, List.length_append, List.length_append, h.aligned]
    rfl
  · intro n hn
    rcases hmem n hn with hold | rfl
    · exact h.pos n hold
    · omega
  · intro n hn
    rcases hmem n hn with hold | rfl
    · have hle := h.le n hold
      omega
    · exact le_rfl
  · intro htarget
    obtain ⟨hnode, hbelow⟩ := hnew htarget
    apply List.pairwise_append.mpr
    refine ⟨h.increasing hnode, List.pairwise_singleton _ _, fun n hn last hlast => ?_⟩
    rw [List.mem_singleton.mp hlast, hattempt]
    exact hbelow n hn
  · exact fun _ => ⟨by omega, List.getLast?_concat⟩

theorem tagged_commit {py : Platform} {ctx : NodeContext} {w : World} {o : NodeOutcome} {r : Route}
    {attempts : List ℕ} (h : Tagged w.node w.state attempts)
    (ho : nodeFuncs py ctx w.node w.snapshots w.state w.workdir = .ok o)
    (hr : Chosen w.node o r)
    (hunscored : w.node = .join → r.target = .classifyFailure →
      scoredWorkdir ctx w.state w.workdir = none) :
    Tagged r.target o.state
      (if o.state.resultsHistory.length = w.state.resultsHistory.length then attempts
        else attempts ++ [o.state.attemptNo]) := by
  have hframe := nodeFuncs_frame ho
  have hvalidateOnly : r.target = .validate → w.node = .solve := fun htarget =>
    hr.source.symm.trans (source_of_target_validate r hr.mem htarget)
  have hdecided : isDecided r.target = false → isDecided w.node = false := by
    intro htarget
    by_contra hnode
    have hsource : isDecided r.source = true := by
      rw [hr.source]
      simpa using hnode
    rw [target_of_decided r hr.mem hsource] at htarget
    cases htarget
  rcases nodeFuncs_history ho with ⟨hsame, hvalidate, -⟩ | ⟨vector, hgrown, hscores⟩
  · rw [if_pos (congrArg List.length hsame)]
    have hjoin : r.target ≠ .join := fun htarget =>
      hvalidate (hr.source.symm.trans (source_of_target_join r hr.mem htarget))
    by_cases hsolve : w.node = .solve
    · have hnext : o.state.attemptNo = w.state.attemptNo + 1 := by
        rw [hsolve] at ho
        exact attemptNo_of_solve ho
      exact h.opened (by rw [hsolve]; rfl) hsame hnext hjoin
    · exact h.kept hsame (hframe.attemptNo hsolve) hdecided
        (fun htarget => hsolve (hvalidateOnly htarget)) hjoin
  · have hne : o.state.resultsHistory.length ≠ w.state.resultsHistory.length := by
      rw [hgrown, List.length_append, List.length_singleton]
      omega
    have hsolve : w.node ≠ .solve := by
      rcases hscores with hnode | ⟨hnode, -⟩ <;> rw [hnode] <;> decide
    have hpos : 1 ≤ w.state.attemptNo := by
      rcases hscores with hnode | ⟨hnode, -⟩
      · exact (h.fresh hnode).1
      · exact (h.scored hnode).1
    rw [if_neg hne]
    refine h.extended hgrown (hframe.attemptNo hsolve) hpos (fun htarget => ?_)
      fun htarget => hsolve (hvalidateOnly htarget)
    refine ⟨hdecided htarget, ?_⟩
    rcases hscores with hnode | ⟨hnode, hsome⟩
    · exact (h.fresh hnode).2
    · -- A join that scores and does not end the run is the one that is left out.
      rcases target_of_join r hr.mem (hr.source.trans hnode) with hdistill | hclassify
      · rw [hdistill] at htarget
        cases htarget
      · rw [hunscored hnode hclassify] at hsome
        cases hsome

theorem scoredIn_commit (ctx : NodeContext) (w : World) (l : Label) (o : NodeOutcome) (r : Route)
    (attempts : List ℕ) : scoredIn w l (commitHop ctx w o r) attempts =
      if o.state.resultsHistory.length = w.state.resultsHistory.length then attempts
      else attempts ++ [o.state.attemptNo] := by
  obtain ⟨snapshots, hstate⟩ := commitHop_state ctx w o r
  rw [scoredIn, hstate]

theorem scoredIn_same {w w' : World} {l : Label} (attempts : List ℕ)
    (h : w'.state.resultsHistory = w.state.resultsHistory) : scoredIn w l w' attempts = attempts :=
  if_pos (congrArg List.length h)

variable {py : Platform}

/-- What a hop leaves alone when it is not checkpointed, or is `finalize`. -/
theorem step_cases_scored {w w' : World} {l : Label} (h : (engine py).step w l = some w') :
    (w'.node = w.node ∧ w'.state.resultsHistory = w.state.resultsHistory ∧
      w'.state.attemptNo = w.state.attemptNo) ∨
    ∃ ctx o r, l = .hop ctx ∧ nodeFuncs py ctx w.node w.snapshots w.state w.workdir = .ok o ∧
      Chosen w.node o r ∧ w' = commitHop ctx w o r := by
  rcases step_cases h with ⟨workdir, -, -, -, rfl⟩ | ⟨ctx, e, -, -, rfl⟩ | ⟨ctx, -, -, -, rfl⟩ |
    ⟨ctx, o, r, hl, -, -, ho, -, hr, hw⟩
  · exact Or.inl ⟨rfl, rfl, rfl⟩
  · exact Or.inl ⟨rfl, rfl, rfl⟩
  · exact Or.inl ⟨rfl, rfl, rfl⟩
  · exact Or.inr ⟨ctx, o, r, hl, ho, hr, hw⟩

theorem tagged_step {w w' : World} {l : Label} {attempts : List ℕ}
    (hw : Tagged w.node w.state attempts) (h : (engine py).step w l = some w')
    (hunscored : JoinsUnscored w l w') :
    Tagged w'.node w'.state (scoredIn w l w' attempts) := by
  rcases step_cases_scored h with ⟨hnode, hhistory, hattempt⟩ | ⟨ctx, o, r, hl, ho, hr, rfl⟩
  · rw [scoredIn_same attempts hhistory, hnode]
    refine ⟨?_, hw.pos, ?_, hw.increasing, ?_, ?_⟩
    · rw [hw.aligned, hhistory]
    · rw [hattempt]
      exact hw.le
    · rw [hattempt]
      exact hw.fresh
    · rw [hattempt]
      exact hw.scored
  · have htagged := tagged_commit hw ho hr (hunscored ctx hl)
    rw [scoredIn_commit]
    obtain ⟨snapshots, hstate⟩ := commitHop_state ctx w o r
    rw [hstate]
    exact ⟨htagged.aligned, htagged.pos, htagged.le, htagged.increasing, htagged.fresh,
      htagged.scored⟩

theorem tagged_start (i : Start) : Tagged .intake (start i).state [] where
  aligned := rfl
  pos := fun _ hn => absurd hn List.not_mem_nil
  le := fun _ hn => absurd hn List.not_mem_nil
  increasing := fun _ => List.Pairwise.nil
  fresh := fun h => (by cases h)
  scored := fun h => (by cases h)

/-- After a join that scored, the last two vectors are of one attempt. -/
theorem not_compares_of_scored {w w' : World} {l : Label} {attempts : List ℕ}
    (hw : Tagged w.node w.state attempts) (h : (engine py).step w l = some w')
    (hcompares : w'.node = .classifyFailure →
      ComparesAttempts w'.state (scoredIn w l w' attempts)) : JoinsUnscored w l w' := by
  intro ctx hl hjoin hclassify
  rcases step_cases_scored h with ⟨hnode, -, -⟩ | ⟨ctx', o, r, hl', ho, hr, rfl⟩
  · rw [hnode, hjoin] at hclassify
    cases hclassify
  · rw [hl] at hl'
    cases hl'
    rcases nodeFuncs_history ho with ⟨-, -, hnone⟩ | ⟨vector, hgrown, -⟩
    · exact hnone hjoin
    · have hne : o.state.resultsHistory.length ≠ w.state.resultsHistory.length := by
        rw [hgrown, List.length_append, List.length_singleton]
        omega
      have hattempt : o.state.attemptNo = w.state.attemptNo :=
        (nodeFuncs_frame ho).attemptNo (by rw [hjoin]; decide)
      have hrecent := (hcompares hclassify).recent
      rw [scoredIn_commit, if_neg hne, hattempt] at hrecent
      obtain ⟨earlier, hsplit⟩ := List.getLast?_eq_some_iff.mp (hw.scored hjoin).2
      have hboth : attempts ++ [w.state.attemptNo] =
          earlier ++ [w.state.attemptNo, w.state.attemptNo] := by
        rw [hsplit, List.append_assoc]
        rfl
      exact absurd (hrecent _ _ _ hboth).1 (lt_irrefl _)

/-- In every run the guard compares different attempts wherever it is reached exactly when no join
that has scored goes on to it. -/
theorem compares_attempts_iff (py : Platform) (i : Start) (ls : List Label) :
    ((engine py).monitor scoredIn).Along
        (fun _ _ w' => w'.1.node = .classifyFailure → ComparesAttempts w'.1.state w'.2)
        (start i, []) ls ↔
      ((engine py).monitor scoredIn).Along (fun w l w' => JoinsUnscored w.1 l w'.1)
        (start i, []) ls := by
  apply System.along_iff_of_invariant (I := fun w => Tagged w.1.node w.1.state w.2)
  · intro w l w' hw h hunscored
    obtain ⟨hstep, hattempts⟩ := System.monitor_step.mp h
    rw [hattempts]
    exact tagged_step hw hstep hunscored
  · intro w l w' hw h
    obtain ⟨hstep, hattempts⟩ := System.monitor_step.mp h
    rw [hattempts]
    constructor
    · exact not_compares_of_scored hw hstep
    · intro hunscored hclassify
      have htagged := tagged_step hw hstep hunscored
      rw [hclassify] at htagged
      exact htagged.compares
  · exact tagged_start i

end Runs

section Examples

/-- A portfolio whose attempts change nothing. -/
def idlePortfolio : Start :=
  { runId := "run"
    task := requestTask "PORTFOLIO: tidy up" (by decide +kernel)
    criteria := [provenCriterion "out"] }

def idleHop : NodeContext where
  script := some ["try"]
  execute _ _ := .exited 1 ""

/-- `validate` and `join` score the first attempt alike, and the guard takes that for two attempts
without progress. -/
theorem not_compares_attempts : ¬ ∀ (py : Platform) (i : Start) (ls : List Label),
    ((engine py).monitor scoredIn).Along
      (fun _ _ w' => w'.1.node = .classifyFailure → ComparesAttempts w'.1.state w'.2)
      (start i, []) ls := by
  intro h
  have halong := h plainPlatform idlePortfolio (List.replicate 6 (.hop idleHop) ++ [.hop idleHop])
  have hends : (((engine plainPlatform).monitor scoredIn).run (start idlePortfolio, [])
      (List.replicate 6 (.hop idleHop) ++ [.hop idleHop])).map (fun w =>
        (w.1.node, w.1.state.attemptNo, identicalResults w.1.state)) =
      some (.classifyFailure, 1, true) := by
    decide +kernel
  obtain ⟨u, hu, hends⟩ := Option.map_eq_some_iff.mp hends
  simp only [Prod.mk.injEq] at hends
  obtain ⟨hnode, hattempt, hidentical⟩ := hends
  obtain ⟨t, ht, hlast⟩ := System.run_snoc.mp hu
  have hcompares := (System.along_append halong ht u hlast).1 hnode
  rw [hcompares.first hattempt] at hidentical
  cases hidentical

end Examples

end Recertia.Graph
