import Recertia.Lib.Transition
import Recertia.Program.OpSpec

/-! Sequences of operations on one program, over a store that counts its versions. -/
namespace Recertia.Program

/-- The stored program, and the terminals that each run has been seen with. -/
structure World where
  program : Option MigrationProgram := none
  reported : String → List String := fun _ => []

inductive Label
  | create (env : Env) (tenantId programId : String) (body : ProgramFields)
  | createFromPack (env : Env) (tenantId programId title intent taskClass : String)
      (steps : List PackStep)
  | operate (env : Env) (op : Operation)

/-- `put`: the store owns the version. -/
def put (stored : Option MigrationProgram) (prog : MigrationProgram) : MigrationProgram :=
  { prog with version := match stored with
    | none => 1
    | some old => old.version + 1 }

/-- The terminals that the runs show now, on top of those that they have shown before. -/
def report (env : Env) (reported : String → List String) (runId : String) : List String :=
  match env.runs runId with
  | none => reported runId
  | some rec => rec.terminal.toList ++ reported runId

def Label.env : Label → Env
  | .create env .. => env
  | .createFromPack env .. => env
  | .operate env _ => env

/-- What an operation on the stored program leaves in the store. -/
def stored (env : Env) (op : Operation) (prog : MigrationProgram) : MigrationProgram :=
  match (op.compute env prog).save with
  | none => prog
  | some next => put (some prog) next

def created (result : Except ServiceError MigrationProgram) : Option MigrationProgram :=
  match result with
  | .error _ => none
  | .ok prog => some (put none prog)

/-- A program is created once; an operation on no program finds none. -/
def step (w : World) (l : Label) : Option World :=
  let reported := report l.env w.reported
  match l, w.program with
  | .create _ tenantId programId body, none =>
    some { program := created (create tenantId programId body), reported }
  | .createFromPack _ tenantId programId title intent taskClass steps, none =>
    some { program := created (createFromPack tenantId programId title intent taskClass steps)
           reported }
  | .operate env op, some prog => some { program := some (stored env op prog), reported }
  | .operate _ _, none => some { w with reported }
  | _, some _ => none

def system : Transition.System World Label := ⟨step⟩

/-- Everything that a step can do. -/
inductive StepKind (w : World) (l : Label) (w' : World) : Prop
  | created (body : ProgramFields) (prog : MigrationProgram) (absent : w.program = none)
      (payload : (∃ env tenantId programId, l = .create env tenantId programId body) ∨
        ∃ packed : List PackStep, body.steps = packed.map PackStep.step)
      (fields : prog.toProgramFields = body) (status : prog.status = .draft)
      (disclaimer : prog.disclaimerAckedAt = none) (next : w'.program = some prog)
  | saved (env : Env) (op : Operation) (label : l = .operate env op)
      (prog q : MigrationProgram) (here : w.program = some prog) (kind : SaveKind env op prog q)
      (next : w'.program = some (put (some prog) q))
  | unchanged (next : w'.program = w.program)

theorem created_cases {tenantId programId : String} {body : ProgramFields} :
    created (create tenantId programId body) = none ∨
    ∃ prog, created (create tenantId programId body) = some prog ∧ prog.toProgramFields = body ∧
      prog.status = .draft ∧ prog.disclaimerAckedAt = none := by
  unfold create
  split
  · exact Or.inl rfl
  · split
    · exact Or.inr ⟨_, rfl, rfl, rfl, rfl⟩
    · exact Or.inl rfl

theorem step_cases {w w' : World} {l : Label} (h : system.step w l = some w') :
    StepKind w l w' ∧ w'.reported = report l.env w.reported := by
  obtain ⟨program, reported⟩ := w
  cases l with
  | create env tenantId programId body =>
    cases program with
    | some prog => cases h
    | none =>
      cases h
      refine ⟨?_, rfl⟩
      rcases created_cases with hnone | ⟨prog, hprog, hfields, hstatus, hdisclaimer⟩
      · exact .unchanged hnone
      · exact .created body prog rfl (Or.inl ⟨env, tenantId, programId, rfl⟩) hfields hstatus
          hdisclaimer hprog
  | createFromPack env tenantId programId title intent taskClass steps =>
    cases program with
    | some prog => cases h
    | none =>
      cases h
      refine ⟨?_, rfl⟩
      unfold createFromPack
      rcases created_cases with hnone | ⟨prog, hprog, hfields, hstatus, hdisclaimer⟩
      · exact .unchanged hnone
      · exact .created _ prog rfl (Or.inr ⟨steps, rfl⟩) hfields hstatus hdisclaimer hprog
  | operate env op =>
    cases program with
    | none =>
      cases h
      exact ⟨.unchanged rfl, rfl⟩
    | some prog =>
      cases h
      refine ⟨?_, rfl⟩
      cases hsave : (op.compute env prog).save with
      | none => exact .unchanged (by simp only [stored, hsave])
      | some q =>
        exact .saved env op rfl prog q rfl (compute_cases hsave) (by simp only [stored, hsave])

end Recertia.Program
