import Recertia.Program.Sequence

/-! The status machine of a program, over every sequence of operations: it keeps its rules exactly
as long as no failing seed hits a program that is not open, or a step that has succeeded. -/
namespace Recertia.Program

open Transition

/-- The rules that a step of a sequence keeps. -/
structure Lawful (w : World) (l : Label) (w' : World) : Prop where
  disclaimed : ∀ q, w'.program = some q →
    q.status = .active ∨ q.status = .blocked ∨ q.status = .completed →
    q.disclaimerAckedAt.isSome = true
  /-- only an accept records the disclaimer -/
  recorded : ∀ q, w'.program = some q → q.disclaimerAckedAt.isSome = true →
    (∃ p, w.program = some p ∧ p.disclaimerAckedAt.isSome = true) ∨
      ∃ env, l = .operate env (.accept true)
  closed : ∀ p q, w.program = some p → w'.program = some q →
    p.status = .abandoned ∨ p.status = .completed →
    q.status ≠ .draft ∧ q.status ≠ .active ∧ q.status ≠ .blocked
  settled : ∀ p q, w.program = some p → w'.program = some q → p.disclaimerAckedAt.isSome = true →
    StepsKeep p q

/-- A seed fails on a program that is neither active nor blocked, or on a step that has
succeeded. -/
def BadSeed (w : World) (l : Label) : Prop :=
  ∃ env stepId checkout prog step, l = .operate env (.seedWorkdir stepId checkout) ∧
    w.program = some prog ∧ env.permits "programs.write" = true ∧
    findStep prog stepId = some step ∧ seedRefused prog checkout = true ∧
    ((prog.status ≠ .active ∧ prog.status ≠ .blocked) ∨ step.status = .succeeded)

/-- Only a draft has no disclaimer, or an abandoned one. -/
structure Disclaimed (prog : MigrationProgram) : Prop where
  draft : prog.status = .draft → prog.disclaimerAckedAt = none
  isOpen : prog.status = .active ∨ prog.status = .blocked ∨ prog.status = .completed →
    prog.disclaimerAckedAt.isSome = true

def Inv (w : World) : Prop := ∀ prog, w.program = some prog → Disclaimed prog

theorem disclaimed_evolves {p q : MigrationProgram} (h : Disclaimed p) (hevolves : Evolves p q) :
    Disclaimed q := by
  constructor
  · intro hdraft
    rw [hevolves.disclaimer]
    rcases hevolves.status with hsame | ⟨-, hq⟩
    · exact h.draft (hsame ▸ hdraft)
    · rw [hdraft] at hq
      rcases hq with hq | hq | hq <;> cases hq
  · intro hq
    rw [hevolves.disclaimer]
    rcases hevolves.status with hsame | ⟨hp, -⟩
    · exact h.isOpen (hsame ▸ hq)
    · exact h.isOpen (by tauto)

theorem disclaimed_put {p : MigrationProgram} {old : Option MigrationProgram}
    (h : Disclaimed p) : Disclaimed (put old p) := ⟨h.draft, h.isOpen⟩

/-- The program behind an accept, but for the refresh. -/
theorem disclaimed_accepted (prog : MigrationProgram) (now : Int) :
    Disclaimed { prog with status := .active, disclaimerAckedAt := some now } :=
  ⟨fun h => (by cases h), fun _ => rfl⟩

theorem inv_step {w w' : World} {l : Label} (hinv : Inv w) (hstep : system.step w l = some w')
    (hclean : ¬ BadSeed w l) : Inv w' := by
  intro q hq
  rcases (step_cases hstep).1 with ⟨body, prog, -, -, -, hstatus, hdisclaimer, hnext⟩ |
    ⟨env, op, hl, prog, next, hhere, hkind, hnext⟩ | ⟨hnext⟩
  · rw [hnext] at hq
    cases hq
    refine ⟨fun _ => hdisclaimer, fun hopen => ?_⟩
    rw [hstatus] at hopen
    rcases hopen with hopen | hopen | hopen <;> cases hopen
  · rw [hnext] at hq
    cases hq
    apply disclaimed_put
    have hprog := hinv prog hhere
    rcases hkind with ⟨hevolves⟩ | ⟨body, ifMatch, -, hdraft, hstatus, -, hdisclaimer⟩ |
      ⟨-, -, rfl⟩ | ⟨-, rfl⟩ | ⟨stepId, checkout, rfl, hpermits, step, hfind, hrefused, rfl⟩
    · exact disclaimed_evolves hprog hevolves
    · refine ⟨fun _ => hdisclaimer.trans (hprog.draft hdraft), fun hopen => ?_⟩
      rw [hstatus] at hopen
      rcases hopen with hopen | hopen | hopen <;> cases hopen
    · exact disclaimed_evolves (disclaimed_accepted prog env.now) (evolves_refresh env _)
    · exact ⟨fun h => (by cases h), fun h => by rcases h with h | h | h <;> cases h⟩
    · refine ⟨fun h => (by cases h), fun _ => ?_⟩
      -- The seed is not a bad one, so the program was open before.
      have hopen : prog.status = .active ∨ prog.status = .blocked := by
        by_contra hnot
        rw [not_or] at hnot
        exact hclean ⟨env, stepId, checkout, prog, step, hl, hhere, hpermits, hfind, hrefused,
          Or.inl hnot⟩
      exact hprog.isOpen (by tauto)
  · exact hinv q (hnext ▸ hq)

theorem stepsKeep_put {p q : MigrationProgram} (old : Option MigrationProgram)
    (h : StepsKeep p q) : StepsKeep p (put old q) := h

theorem lawful_step {w w' : World} {l : Label} (hinv : Inv w)
    (hstep : system.step w l = some w') (hclean : ¬ BadSeed w l) : Lawful w l w' := by
  have hinv' := inv_step hinv hstep hclean
  refine ⟨fun q hq hopen => (hinv' q hq).isOpen hopen, fun q hq hacked => ?_,
    fun p q hp hq hclosed => ?_, fun p q hp hq haccepted => ?_⟩
  · rcases (step_cases hstep).1 with ⟨body, prog, -, -, -, -, hdisclaimer, hnext⟩ |
      ⟨env, op, hl, prog, next, hhere, hkind, hnext⟩ | ⟨hnext⟩
    · rw [hnext] at hq
      cases hq
      rw [hdisclaimer] at hacked
      cases hacked
    · rw [hnext] at hq
      cases hq
      change next.disclaimerAckedAt.isSome = true at hacked
      rcases hkind with ⟨hevolves⟩ | ⟨body, ifMatch, -, -, -, -, hdisclaimer⟩ | ⟨rfl, -, -⟩ |
        ⟨-, rfl⟩ | ⟨stepId, checkout, rfl, hpermits, step, hfind, hrefused, rfl⟩
      · exact Or.inl ⟨prog, hhere, hevolves.disclaimer ▸ hacked⟩
      · exact Or.inl ⟨prog, hhere, hdisclaimer ▸ hacked⟩
      · exact Or.inr ⟨env, hl⟩
      · exact Or.inl ⟨prog, hhere, hacked⟩
      · exact Or.inl ⟨prog, hhere, hacked⟩
    · exact Or.inl ⟨q, hnext ▸ hq, hacked⟩
  · rcases (step_cases hstep).1 with ⟨body, prog, habsent, -⟩ |
      ⟨env, op, hl, prog, next, hhere, hkind, hnext⟩ | ⟨hnext⟩
    · rw [habsent] at hp
      cases hp
    · rw [hp] at hhere
      cases hhere
      rw [hnext] at hq
      cases hq
      rcases hkind with ⟨hevolves⟩ | ⟨body, ifMatch, -, hdraft, -⟩ | ⟨-, hdraft, -⟩ | ⟨-, rfl⟩ |
        ⟨stepId, checkout, rfl, hpermits, step, hfind, hrefused, rfl⟩
      · have hsame : next.status = p.status := by
          rcases hevolves.status with hsame | ⟨hopen, -⟩
          · exact hsame
          · rcases hclosed with hclosed | hclosed <;> rw [hclosed] at hopen <;>
              rcases hopen with hopen | hopen <;> cases hopen
        change next.status ≠ _ ∧ next.status ≠ _ ∧ next.status ≠ _
        rw [hsame]
        rcases hclosed with hclosed | hclosed <;> rw [hclosed] <;> decide
      · rw [hdraft] at hclosed
        rcases hclosed with hclosed | hclosed <;> cases hclosed
      · rw [hdraft] at hclosed
        rcases hclosed with hclosed | hclosed <;> cases hclosed
      · change ProgramStatus.abandoned ≠ _ ∧ ProgramStatus.abandoned ≠ _ ∧
          ProgramStatus.abandoned ≠ _
        decide
      · refine absurd ⟨env, stepId, checkout, p, step, hl, hp, hpermits, hfind, hrefused,
          Or.inl ?_⟩ hclean
        rcases hclosed with hclosed | hclosed <;> rw [hclosed] <;> decide
    · rw [hnext, hp] at hq
      cases hq
      rcases hclosed with hclosed | hclosed <;> rw [hclosed] <;> decide
  · rcases (step_cases hstep).1 with ⟨body, prog, habsent, -⟩ |
      ⟨env, op, hl, prog, next, hhere, hkind, hnext⟩ | ⟨hnext⟩
    · rw [habsent] at hp
      cases hp
    · rw [hp] at hhere
      cases hhere
      rw [hnext] at hq
      cases hq
      have hnotdraft : p.status ≠ .draft := by
        intro hdraft
        rw [(hinv p hp).draft hdraft] at haccepted
        cases haccepted
      apply stepsKeep_put
      rcases hkind with ⟨hevolves⟩ | ⟨body, ifMatch, -, hdraft, -⟩ | ⟨-, hdraft, -⟩ | ⟨-, rfl⟩ |
        ⟨stepId, checkout, rfl, hpermits, step, hfind, hrefused, rfl⟩
      · exact hevolves.steps
      · exact absurd hdraft hnotdraft
      · exact absurd hdraft hnotdraft
      · exact .refl p
      · have hnot : step.status ≠ .succeeded := fun hdone => hclean
          ⟨env, stepId, checkout, p, step, hl, hp, hpermits, hfind, hrefused, Or.inr hdone⟩
        obtain ⟨-, hid⟩ := findStep_spec hfind
        exact replaceStep_keep (hid ▸ hfind) fun hdone => absurd hdone hnot
    · rw [hnext, hp] at hq
      cases hq
      exact .refl p

/-- A bad seed breaks a rule at once. -/
theorem not_lawful_of_badSeed {w w' : World} {l : Label} (hinv : Inv w)
    (hstep : system.step w l = some w') (hbad : BadSeed w l) : ¬ Lawful w l w' := by
  obtain ⟨env, stepId, checkout, prog, step, rfl, hhere, hpermits, hfind, hrefused, hspoilt⟩ := hbad
  have hsave : ((Operation.seedWorkdir stepId checkout).compute env prog).save =
      some (seedFailure prog step) := by
    have haction : (Operation.seedWorkdir stepId checkout).action = "programs.write" := rfl
    simp only [Operation.compute, haction, hpermits, seedWorkdir, withStep, hfind]
    simp only [Bool.not_true, Bool.false_eq_true, if_false]
    split
    · rfl
    · rename_i hhandoff
      split
      · rfl
      · rename_i hbinding
        cases checkout with
        | error message => rfl
        | ok sha =>
          rw [not_not] at hhandoff
          simp [seedRefused, hhandoff, hbinding, Except.isOk, Except.toBool] at hrefused
  have hnext : w'.program = some (put (some prog) (seedFailure prog step)) := by
    obtain ⟨program, reported⟩ := w
    cases hhere
    cases hstep
    simp only [stored, hsave]
  intro hlawful
  have hblocked : (put (some prog) (seedFailure prog step)).status = .blocked := rfl
  have hopen : prog.status = .active ∨ prog.status = .blocked := by
    cases hstatus : prog.status with
    | active => exact Or.inl rfl
    | blocked => exact Or.inr rfl
    | draft =>
      have hsome := hlawful.disclaimed _ hnext (Or.inr (Or.inl hblocked))
      change prog.disclaimerAckedAt.isSome = true at hsome
      rw [(hinv prog hhere).draft hstatus] at hsome
      cases hsome
    | completed => exact absurd hblocked (hlawful.closed prog _ hhere hnext (Or.inr hstatus)).2.2
    | abandoned => exact absurd hblocked (hlawful.closed prog _ hhere hnext (Or.inl hstatus)).2.2
  -- The program is accepted, and the step that has succeeded is set to failed.
  have hdone : step.status = .succeeded := by tauto
  have haccepted := (hinv prog hhere).isOpen (by tauto)
  obtain ⟨hmem, hid⟩ := findStep_spec hfind
  obtain ⟨s', hs', hid', hdone'⟩ := hlawful.settled prog _ hhere hnext haccepted step hmem hdone
  obtain ⟨s, hs, rfl⟩ := mem_replaceStep.mp hs'
  dsimp only at hid' hdone'
  rw [if_pos hid'] at hdone'
  cases hdone'

/-- Every sequence of operations keeps the status machine exactly as long as none of them is a bad
seed. -/
theorem status_machine_lawful_iff (ls : List Label) :
    system.Along Lawful {} ls ↔
      system.Along (fun w l _ => ¬ BadSeed w l) {} ls := by
  apply System.along_iff_of_invariant (I := Inv)
  · exact fun w l w' hinv hstep hclean => inv_step hinv hstep hclean
  · intro w l w' hinv hstep
    constructor
    · exact fun hlawful hbad => not_lawful_of_badSeed hinv hstep hbad hlawful
    · exact fun hclean => lawful_step hinv hstep hclean
  · exact fun prog h => by cases h

/-- An environment that permits everything and shows no run. -/
def quietEnv : Env where
  permits _ := true
  runs _ := none
  loadedHash _ := none
  py := { repr := fun s => "'" ++ s ++ "'", isAlpha := Char.isAlpha, evidenceHash := fun _ _ => "" }
  criteriaHash _ := "sha256"
  runBudget _ := some none
  now := 0

def commandGoal (id run : String) (h : [({ id, check := .command run 0 } : Graph.DesiredState)].any
    Graph.DesiredState.isHard = true) : Worker.Goal where
  desired := [{ id, check := .command run 0 }]
  atLeastOneHardCriterion := h

def buildStep (stepId : String) (ordinal : ℕ) : MigrationStep where
  stepId := stepId
  ordinal := ordinal
  title := "build"
  goal := commandGoal "build" "make" (by decide)

def twoSteps : ProgramFields where
  title := "migrate"
  handoff := .operatorWorkdir
  steps := [buildStep "a" 0, buildStep "b" 1]

/-- A draft that nobody has accepted is blocked by a seed that fails. -/
theorem seed_blocks_draft :
    (system.run {} [.create quietEnv "acme" "prog" twoSteps,
        .operate quietEnv (.seedWorkdir "a" (.ok "sha"))]).map
      (fun w => w.program.map fun prog => (prog.status, prog.disclaimerAckedAt)) =
        some (some (.blocked, none)) ∧
    ¬ system.Along Lawful {} [.create quietEnv "acme" "prog" twoSteps,
        .operate quietEnv (.seedWorkdir "a" (.ok "sha"))] := by
  have hrun : (system.run {} [.create quietEnv "acme" "prog" twoSteps,
      .operate quietEnv (.seedWorkdir "a" (.ok "sha"))]).map
        (fun w => w.program.map fun prog => (prog.status, prog.disclaimerAckedAt)) =
      some (some (.blocked, none)) := by decide +kernel
  refine ⟨hrun, fun h => ?_⟩
  obtain ⟨w, hw, hprog⟩ := Option.map_eq_some_iff.mp hrun
  obtain ⟨prog, hprog, hfields⟩ := Option.map_eq_some_iff.mp hprog
  obtain ⟨v, hv, hrest⟩ := System.run_cons.mp hw
  obtain ⟨u, hu, hlast⟩ := System.run_cons.mp hrest
  cases hlast
  have hlawful := ((h v hv).2 w hu).1
  have hblocked : prog.status = .blocked := congrArg Prod.fst hfields
  have hnone : prog.disclaimerAckedAt = none := congrArg Prod.snd hfields
  have hsome := hlawful.disclaimed prog hprog (Or.inr (Or.inl hblocked))
  rw [hnone] at hsome
  cases hsome

end Recertia.Program
