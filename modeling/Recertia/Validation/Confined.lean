import Recertia.Validation.Assertions

/-! An assertion is confined to its workdir, and when scoring it comes back. -/
namespace Recertia.Assertion

open PosixFs Traced

variable {h : Host} {fs : Fs} {fuel : ℕ}

/-- A path below the workdir that leads to itself. -/
def Inside (fs : Fs) (root p : Path) : Prop := root <+: p ∧ Canonical fs p

/-- The node types with a `visit_` method. -/
def allowedNodes : List String :=
  ["Expression", "Constant", "Name", "UnaryOp", "BoolOp", "Compare", "BinOp", "Attribute", "Call",
    "JoinedStr", "FormattedValue"]

/-- What the evaluation may do. -/
def Allowed (fs : Fs) (root : Path) : Event → Prop
  | .visit kind => kind ∈ allowedNodes
  | .resolve _ _ => True
  | .test p | .read p => Inside fs root p
  | .call _ _ => False

/-- The paths that an evaluation comes to are inside. -/
def Sound (fs : Fs) (root : Path) {F : Type} : Val F → Prop
  | .path p => Inside fs root p
  | _ => True

/-- What ends an evaluation: a path that leads out of the workdir, and a pipe that is read. -/
def ends (h : Host) (fs : Fs) (fuel : ℕ) (root : Path) : Event → Option Exc
  | .resolve path p => if root.isPrefixOf p then none else some (.escapes path)
  | .read p =>
    match h.denied (.read p), stat fs fuel p with
    | none, some .fifo => some .waits
    | _, _ => none
  | .visit _ | .test _ | .call _ _ => none

/-- An error that any operation may raise. -/
def Quiet : Exc → Prop
  | .unsafe_ _ | .fault _ => True
  | .escapes _ | .waits => False

abbrev Safe (h : Host) (fs : Fs) (fuel : ℕ) (root : Path) {α : Type} (post : α → Prop)
    (x : Run α) : Prop :=
  Ensures (Allowed fs root) post (ends h fs fuel root) Quiet x

section Rules

variable {root : Path} {α β : Type} {post : α → Prop} {post' : β → Prop}

theorem Safe.map {x : Run α} {f : α → β} (hx : Safe h fs fuel root post x)
    (hf : ∀ a, post a → post' (f a)) : Safe h fs fuel root post' (f <$> x) := by
  rw [map_eq_pure_bind]
  exact hx.bind fun a ha => .pure (hf a ha)

theorem Safe.visit {kind : String} (hkind : kind ∈ allowedNodes) {x : Run β}
    (hx : Safe h fs fuel root post' x) : Safe h fs fuel root post' (emit (.visit kind) >>= fun _ => x) :=
  Ensures.bind (Ensures.emit (show Allowed fs root (.visit kind) from hkind) rfl) fun _ _ => hx

end Rules

section Paths

variable (h fs fuel)

theorem resolve_ensures {allowed : Event → Prop} {ends : Event → Option Exc} (parts : List Str) :
    Ensures allowed (Canonical fs) ends Quiet (resolve h fs fuel parts) := by
  rw [resolve]
  split
  · exact .raise trivial
  · split
    · rename_i p hfollow
      exact .pure (follow_canonical (canonical_nil fs) hfollow)
    · exact .raise trivial

theorem confine_safe (root : Path) (anchor : Str) (parts : List Str) :
    Safe h fs fuel root (Inside fs root) (confine h fs fuel root anchor parts) := by
  rw [confine]
  refine (resolve_ensures h fs fuel parts).bind fun resolved hresolved => ?_
  by_cases hbelow : root.isPrefixOf resolved = true
  · simp only [hbelow, if_true]
    have hallowed : Allowed fs root (.resolve (pathText anchor parts) resolved) := trivial
    refine (Ensures.emit hallowed (if_pos hbelow)).bind fun _ _ => .pure ?_
    exact ⟨List.isPrefixOf_iff_prefix.mp hbelow, hresolved⟩
  · simp only [hbelow, if_false, Bool.false_eq_true]
    exact .stop trivial (if_neg hbelow)

theorem test_safe {root p : Path} (hp : Inside fs root p) (answer : Bool) :
    Safe h fs fuel root (fun _ => True) (test h p answer) := by
  rw [test]
  refine (Ensures.emit (show Allowed fs root (.test p) from hp) rfl).bind fun _ _ => ?_
  split
  · exact .raise trivial
  · exact .pure trivial

theorem readBytes_safe {root p : Path} (hp : Inside fs root p) :
    Safe h fs fuel root (fun _ => True) (readBytes h fs fuel p) := by
  have hallowed : Allowed fs root (.read p) := hp
  rw [readBytes]
  cases hdenied : h.denied (.read p) with
  | some message =>
    exact (Ensures.emit hallowed (by simp [ends, hdenied])).bind fun _ _ => .raise trivial
  | none =>
    cases hstat : stat fs fuel p with
    | none => exact (Ensures.emit hallowed (by simp [ends, hstat])).bind fun _ _ => .raise trivial
    | some node =>
      cases node with
      | fifo => exact .stop hallowed (by simp [ends, hdenied, hstat])
      | file content =>
        exact (Ensures.emit hallowed (by simp [ends, hstat])).bind fun _ _ => .pure trivial
      | _ => exact (Ensures.emit hallowed (by simp [ends, hstat])).bind fun _ _ => .raise trivial

theorem method_safe {root p : Path} (hp : Inside fs root p) {attr : Attr}
    (hallowed : attr.allowed = true) (args : List (Val h.F)) :
    Safe h fs fuel root (Sound fs root) (method h fs fuel p attr args) := by
  have hbool : ∀ answer, Safe h fs fuel root (Sound fs root) (Val.bool (F := h.F) <$> test h p answer) :=
    fun answer => Safe.map (test_safe h fs fuel hp answer) fun _ _ => trivial
  have hread := readBytes_safe h fs fuel hp
  cases attr with
  | other word => cases hallowed
  | readText =>
    rw [method]
    split
    · exact .raise trivial
    · refine hread.bind fun content _ => ?_
      split
      · exact .pure trivial
      · exact .raise trivial
  | exists_ | isFile | isDir | isSymlink =>
    simp only [method]
    split
    · exact .raise trivial
    · exact hbool _
  | readBytes =>
    simp only [method]
    split
    · exact .raise trivial
    · exact Safe.map hread fun _ _ => trivial
  | name | suffix | stem | asPosix | parts =>
    simp only [method]
    split
    · exact .raise trivial
    · exact .pure trivial

theorem fileExists_safe (root : Path) (path : Str) :
    Safe h fs fuel root (fun _ => True) (fileExists h fs fuel root path) :=
  (confine_safe h fs fuel root _ _).bind fun _ hconfined => test_safe h fs fuel hconfined _

theorem fileContains_safe (root : Path) (path pattern : Str) :
    Safe h fs fuel root (fun _ => True) (fileContains h fs fuel root path pattern) := by
  rw [fileContains]
  split
  · exact .pure trivial
  · split
    · exact .pure trivial
    · exact .raise trivial
    · refine (confine_safe h fs fuel root _ _).bind fun confined hconfined => ?_
      refine (test_safe h fs fuel hconfined _).bind fun found _ => ?_
      split
      · refine (readBytes_safe h fs fuel hconfined).bind fun content _ => ?_
        split
        · exact .pure trivial
        · exact .raise trivial
      · exact .pure trivial

end Paths

section Values

/-- An operation on values does not make a path, and has nothing to do with the file system. -/
structure Plain {α : Type} (isPath : α → Prop) (x : Except Exc α) : Prop where
  result : ∀ a, x = .ok a → ¬ isPath a
  error : ∀ e, x = .error e → Quiet e

def IsPath {F : Type} : Val F → Prop
  | .path _ => True
  | _ => False

theorem plain_ok {α : Type} {isPath : α → Prop} {a : α} (ha : ¬ isPath a) :
    Plain isPath (.ok a) :=
  ⟨fun b hb => (by cases hb; exact ha), fun _ heq => by cases heq⟩

theorem plain_error {α : Type} {isPath : α → Prop} {e : Exc} (he : Quiet e) :
    Plain isPath (.error e) :=
  ⟨fun b hb => (by cases hb), fun _ heq => Except.error.inj heq ▸ he⟩

theorem Plain.safe {root : Path} {x : Except Exc (Val h.F)} (hx : Plain IsPath x) :
    Safe h fs fuel root (Sound fs root) (ofExcept x) := by
  refine .ofExcept (fun v hv => ?_) hx.error
  cases v with
  | path p => exact absurd trivial (hx.result _ hv)
  | _ => trivial

theorem Plain.safe_any {root : Path} {α : Type} {x : Except Exc α} (hx : Plain (fun _ => False) x) :
    Safe h fs fuel root (fun _ => True) (ofExcept x) :=
  .ofExcept (fun _ _ => trivial) hx.error

theorem constant_plain (c : Constant h.F) : Plain IsPath (constant c) := by
  cases c with
  | other typeName => exact plain_error trivial
  | _ => exact plain_ok id

theorem ofNumber_not_path {F : Type} (n : Number F) : ¬ IsPath (ofNumber n) := by
  cases n <;> exact id

theorem unary_plain (op : UnaryOp) (operand : Val h.F) : Plain IsPath (unary op operand) := by
  cases op with
  | not => exact plain_ok id
  | invert => exact plain_error trivial
  | uAdd =>
    rw [unary]
    split
    · exact plain_ok (ofNumber_not_path _)
    · exact plain_error trivial
  | uSub =>
    rw [unary]
    split
    · exact plain_ok id
    · exact plain_ok id
    · exact plain_error trivial

theorem add_plain (left right : Val h.F) : Plain IsPath (add left right) := by
  rw [add.eq_def]
  split
  · exact plain_ok id
  · split
    · exact plain_ok id
    · split
      · exact plain_ok (ofNumber_not_path _)
      · exact plain_error trivial
    · exact plain_error trivial

theorem ordered_plain (strict : Bool) (word : String) (a b : Val h.F) :
    Plain (fun _ => False) (ordered strict word a b) := by
  rw [ordered.eq_def]
  split
  · exact plain_ok id
  · split
    · exact plain_ok id
    · exact plain_ok id
    · exact plain_ok id
    · exact plain_ok id
    · exact plain_error trivial

theorem contains_plain (left right : Val h.F) : Plain (fun _ => False) (contains left right) := by
  rw [contains.eq_def]
  split
  · split
    · exact plain_ok id
    · exact plain_error trivial
  · split
    · exact plain_ok id
    · exact plain_ok id
    · split
      · exact plain_ok id
      · exact plain_error trivial
    · exact plain_error trivial
  · exact plain_ok id
  · exact plain_error trivial

theorem compareOp_plain (op : CmpOp) (left right : Val h.F) :
    Plain (fun _ => False) (compareOp op left right) := by
  cases op with
  | eq | notEq => exact plain_ok id
  | lt | ltE | gt | gtE => exact ordered_plain _ _ _ _
  | in_ => exact contains_plain left right
  | is_ | isNot => exact plain_error trivial
  | notIn =>
    have hin := contains_plain left right
    rw [compareOp]
    cases hc : contains left right with
    | ok b => exact plain_ok id
    | error e => exact plain_error (hin.error e hc)

theorem strOf_plain (v : Val h.F) : Plain (fun _ => False) (strOf v) := by
  cases v with
  | int i =>
    rw [strOf]
    split
    · exact plain_ok id
    · exact plain_error trivial
  | _ => exact plain_ok id

theorem property_not_path {p : Path} {attr : Attr} {v : Val h.F} (hv : property p attr = some v) :
    ¬ IsPath v := by
  cases attr <;> cases hv <;> exact id

end Values

section Nodes

variable {root : Path} {visit : Expr h.F → Run (Val h.F)}

theorem visitName_safe (hroot : Canonical fs root) (id : String) :
    Safe h fs fuel root (Sound fs root) (visitName (h := h) root id) := by
  have hself : Sound fs root (Val.path (F := h.F) root) := ⟨List.prefix_rfl, hroot⟩
  rw [visitName]
  split
  · exact .pure hself
  · split
    · exact .pure trivial
    · split
      · exact .pure trivial
      · split
        · exact .pure trivial
        · exact .raise trivial

theorem visitBoolOp_safe (hvisit : ∀ e, Safe h fs fuel root (Sound fs root) (visit e))
    (decides : Val h.F → Bool) (values : List (Expr h.F)) {value : Val h.F}
    (hvalue : Sound fs root value) :
    Safe h fs fuel root (Sound fs root) (visitBoolOp visit decides value values) := by
  induction values generalizing value with
  | nil => exact .pure hvalue
  | cons child values ih =>
    rw [visitBoolOp]
    refine (hvisit child).bind fun next hnext => ?_
    split
    · exact .pure hnext
    · exact ih hnext

theorem visitCompare_safe (hvisit : ∀ e, Safe h fs fuel root (Sound fs root) (visit e))
    (ops : List (CmpOp × Expr h.F)) (left : Val h.F) :
    Safe h fs fuel root (Sound fs root) (visitCompare visit left ops) := by
  induction ops generalizing left with
  | nil => exact .pure trivial
  | cons op ops ih =>
    rw [visitCompare]
    refine (hvisit op.2).bind fun right _ => ?_
    refine (compareOp_plain op.1 left right).safe_any.bind fun ok _ => ?_
    split
    · exact ih right
    · exact .pure trivial

theorem visitBinOp_safe (op : BinOp) (left right : Val h.F) :
    Safe h fs fuel root (Sound fs root) (visitBinOp fs fuel root op left right) := by
  rw [visitBinOp.eq_def]
  split
  · refine (strOf_plain right).safe_any.bind fun text _ => ?_
    exact Safe.map (confine_safe h fs fuel root _ _) fun p hp => hp
  · exact (add_plain left right).safe
  · exact .raise trivial

theorem visitAttribute_safe (value : Val h.F) (attr : Attr) :
    Safe h fs fuel root (Sound fs root) (visitAttribute value attr) := by
  rw [visitAttribute.eq_def]
  split
  · split
    · exact .raise trivial
    · split
      · rename_i v hv
        refine .pure ?_
        cases v with
        | path p => exact absurd trivial (property_not_path hv)
        | _ => trivial
      · exact .raise trivial
  · exact .raise trivial

theorem visitMethod_safe (hvisit : ∀ e, Safe h fs fuel root (Sound fs root) (visit e))
    {obj : Val h.F} (hobj : Sound fs root obj) (attr : Attr) (args : List (Expr h.F)) :
    Safe h fs fuel root (Sound fs root) (visitMethod fs fuel visit root obj attr args) := by
  rw [visitMethod.eq_def]
  split
  · rename_i p
    split
    · exact .raise trivial
    · rename_i hallowed
      have hattr : attr.allowed = true := by simpa using hallowed
      split
      · exact .raise trivial
      · -- what is asked of the path again does not change what is called
        have hcall : Safe h fs fuel root (Sound fs root)
            (args.mapM visit >>= fun args => method h fs fuel p attr args) :=
          (Ensures.mapM hvisit args).bind fun args _ => method_safe h fs fuel hobj hattr args
        split
        · exact (confine_safe h fs fuel root _ _).bind fun _ _ => hcall
        · exact hcall
  · exact .raise trivial

theorem visitCall_safe (hvisit : ∀ e, Safe h fs fuel root (Sound fs root) (visit e))
    (func : Expr h.F) (args : List (Expr h.F)) (keywords : List (String × Expr h.F)) :
    Safe h fs fuel root (Sound fs root) (visitCall fs fuel visit root func args keywords) := by
  rw [visitCall.eq_def]
  split
  · exact .raise trivial
  · split
    · refine (Ensures.mapM hvisit args).bind fun args _ => ?_
      split
      · exact Safe.map (fileExists_safe h fs fuel root _) fun _ _ => trivial
      · exact .raise trivial
    · refine (Ensures.mapM hvisit args).bind fun args _ => ?_
      split
      · exact Safe.map (fileContains_safe h fs fuel root _ _) fun _ _ => trivial
      · exact .raise trivial
    · exact (hvisit _).bind fun obj hobj => visitMethod_safe hvisit hobj _ args
    · exact .raise trivial

theorem visitJoinedStr_safe (hvisit : ∀ e, Safe h fs fuel root (Sound fs root) (visit e))
    (values : List (Expr h.F)) : Safe h fs fuel root (fun _ => True) (visitJoinedStr visit values) := by
  induction values with
  | nil => exact .pure trivial
  | cons value values ih =>
    rw [visitJoinedStr.eq_def]
    split
    · rename_i heq
      cases heq
    · rename_i heq
      cases heq
      exact ih.bind fun rest _ => .pure trivial
    · rename_i heq
      cases heq
      refine (hvisit _).bind fun v _ => ?_
      refine (strOf_plain v).safe_any.bind fun text _ => ?_
      exact ih.bind fun rest _ => .pure trivial
    · exact .raise trivial

/-- Every node keeps to the workdir, whatever it is made of. -/
theorem visit_safe (hroot : Canonical fs root) (n : ℕ) (e : Expr h.F) :
    Safe h fs fuel root (Sound fs root) (Assertion.visit h fs fuel root n e) := by
  induction n generalizing e with
  | zero => exact .raise trivial
  | succ n ih =>
    cases e with
    | expression body => exact Safe.visit (by decide) (ih body)
    | constant value => exact Safe.visit (by decide) (constant_plain value).safe
    | name id => exact Safe.visit (by decide) (visitName_safe hroot id)
    | unaryOp op operand =>
      exact Safe.visit (by decide) ((ih operand).bind fun v _ => (unary_plain op v).safe)
    | boolOp op values =>
      cases op with
      | and => exact Safe.visit (by decide) (visitBoolOp_safe ih _ values trivial)
      | or => exact Safe.visit (by decide) (visitBoolOp_safe ih _ values trivial)
    | compare left ops =>
      exact Safe.visit (by decide) ((ih left).bind fun v _ => visitCompare_safe ih ops v)
    | binOp left op right =>
      exact Safe.visit (by decide) ((ih left).bind fun v _ => (ih right).bind fun w _ =>
        visitBinOp_safe op v w)
    | attributeOf value attr =>
      exact Safe.visit (by decide) ((ih value).bind fun v _ => visitAttribute_safe v attr)
    | call func args keywords =>
      exact Safe.visit (by decide) (visitCall_safe ih func args keywords)
    | joinedStr values =>
      exact Safe.visit (by decide) (Safe.map (visitJoinedStr_safe ih values) fun _ _ => trivial)
    | formattedValue value spec => exact Safe.visit (by decide) (ih value)
    | other kind parts => exact .raise trivial

end Nodes

section Scoring

variable (h fs fuel) (cwd : Path) (frames : ℕ)

/-- An event of an evaluation in this root: a node of the grammar, a path that is resolved, or one
below the root that is resolved to itself, however far links are followed. -/
def Confined (root : Path) : Event → Prop
  | .visit kind => kind ∈ allowedNodes
  | .resolve _ _ => True
  | .test p | .read p => root <+: p ∧ ∀ n, p.length < n → follow fs n [] p = some p
  | .call _ _ => False

theorem confined_of_allowed {root : Path} {event : Event} (hevent : Allowed fs root event) :
    Confined fs root event := by
  have hinside : ∀ {p}, Inside fs root p →
      root <+: p ∧ ∀ n, p.length < n → follow fs n [] p = some p := fun hp =>
    ⟨hp.1, fun n hn => follow_of_canonical hp.2 hn⟩
  cases event with
  | visit kind => exact hevent
  | resolve path p => trivial
  | test p => exact hinside hevent
  | read p => exact hinside hevent
  | call attr p => exact hevent

/-- A path is resolved out of the workdir, and refused by this text. -/
def Refuses (expr : String) (workdir : Str) (path : Str) : Prop :=
  ∃ root p, (rootOf h fs fuel cwd workdir).result = .ok root ∧ ¬ root <+: p ∧
    .resolve path p ∈ (evaluateAssertion h fs fuel cwd frames expr workdir).events

/-- The kept part of the message that names a refused path has a lone surrogate. -/
def RefusesGarbled (expr : String) (workdir : Str) : Prop :=
  ∃ path, Refuses h fs fuel cwd frames expr workdir path ∧
    ∃ n ∈ (str "assertion rejected: path escapes workdir: " ++ path).take 2000,
      isSurrogate n = true

/-- A pipe is opened to be read, and the system lets it. -/
def ReadsPipe (expr : String) (workdir : Str) : Prop :=
  ∃ p, .read p ∈ (evaluateAssertion h fs fuel cwd frames expr workdir).events ∧
    h.denied (.read p) = none ∧ stat fs fuel p = some .fifo

theorem resolve_events (parts : List Str) : (resolve h fs fuel parts).events = [] := by
  rw [resolve]
  split
  · rfl
  · split <;> rfl

theorem ends_waits_iff {root : Path} {event : Event} : ends h fs fuel root event = some .waits ↔
    ∃ p, event = .read p ∧ h.denied (.read p) = none ∧ stat fs fuel p = some .fifo := by
  cases event with
  | read p =>
    simp only [ends, Event.read.injEq, exists_eq_left']
    split
    · rename_i hdenied hstat
      simp [hdenied, hstat]
    · rename_i hother
      refine iff_of_false (fun heq => by cases heq) fun hboth => hother hboth.1 hboth.2
  | resolve path p =>
    simp only [ends]
    split <;> simp
  | _ => simp [ends]

theorem ends_escapes_iff {root : Path} {event : Event} {path : Str} :
    ends h fs fuel root event = some (.escapes path) ↔
      ∃ p, event = .resolve path p ∧ ¬ root <+: p := by
  cases event with
  | read p =>
    simp only [ends]
    split <;> simp
  | resolve text p =>
    simp only [ends, Event.resolve.injEq, ← List.isPrefixOf_iff_prefix]
    split
    · rename_i hbelow
      simp [hbelow]
    · rename_i hbelow
      simp [hbelow]
  | _ => simp [ends]

/-- A run that does nothing and fails has no part in the file system. -/
theorem quiet_spec {R : Path → Prop} {confined : Path → Event → Prop} {e : Exc} (he : Quiet e)
    (x : Run Bool) (hx : x = ⟨[], .error e⟩) :
    (∀ event ∈ x.events, ∃ root, R root ∧ confined root event) ∧
    (x.result = .error .waits ↔
      ∃ p, .read p ∈ x.events ∧ h.denied (.read p) = none ∧ stat fs fuel p = some .fifo) ∧
    ∀ path, x.result = .error (.escapes path) ↔
      ∃ root p, R root ∧ ¬ root <+: p ∧ .resolve path p ∈ x.events := by
  subst hx
  refine ⟨fun _ hmem => absurd hmem List.not_mem_nil, ?_, fun path => ?_⟩
  · refine iff_of_false ?_ fun ⟨_, hmem, _⟩ => absurd hmem List.not_mem_nil
    rintro ⟨⟩
    exact he
  · refine iff_of_false ?_ fun ⟨_, _, _, _, hmem⟩ => absurd hmem List.not_mem_nil
    rintro ⟨⟩
    exact he

/-- A run of the evaluator: what it does, and the two ways in which the file system ends it. -/
theorem evaluate_spec (expr : String) (workdir : Str) :
    (∀ event ∈ (evaluateAssertion h fs fuel cwd frames expr workdir).events,
      ∃ root, (rootOf h fs fuel cwd workdir).result = .ok root ∧ Confined fs root event) ∧
    ((evaluateAssertion h fs fuel cwd frames expr workdir).result = .error .waits ↔
      ReadsPipe h fs fuel cwd frames expr workdir) ∧
    ∀ path, (evaluateAssertion h fs fuel cwd frames expr workdir).result = .error (.escapes path) ↔
      Refuses h fs fuel cwd frames expr workdir path := by
  unfold ReadsPipe Refuses
  rw [evaluateAssertion]
  split
  · exact quiet_spec h fs fuel (e := .unsafe_ _) trivial _ rfl
  · exact quiet_spec h fs fuel (e := .fault _) trivial _ rfl
  · rename_i tree _
    have hresolve : Ensures (fun _ => True) (Canonical fs) (fun _ => none) Quiet
        (rootOf h fs fuel cwd workdir) := resolve_ensures h fs fuel _
    have hnone : (rootOf h fs fuel cwd workdir).events = [] := resolve_events h fs fuel _
    cases hroot : (rootOf h fs fuel cwd workdir).result with
    | error e =>
      have hfault : Quiet e := (hresolve.error e hroot).resolve_right fun ⟨_, _, heq⟩ => by cases heq
      rw [bind_of_error hroot, hnone]
      exact quiet_spec h fs fuel hfault _ rfl
    | ok root =>
      have hsafe : Safe h fs fuel root (fun _ => True)
          (visit h fs fuel root frames tree >>= fun value => pure (truth value)) :=
        (visit_safe (hresolve.result _ hroot) frames tree).bind fun _ _ => .pure trivial
      rw [bind_of_ok hroot, hnone, List.nil_append]
      refine ⟨fun event hmem => ⟨root, rfl, confined_of_allowed fs (hsafe.events event hmem)⟩,
        ⟨fun heq => ?_, ?_⟩, fun path => ⟨fun heq => ?_, ?_⟩⟩
      · obtain ⟨event, hmem, hends⟩ := (hsafe.error _ heq).resolve_left id
        obtain ⟨p, rfl, hfifo⟩ := (ends_waits_iff h fs fuel).mp hends
        exact ⟨p, hmem, hfifo⟩
      · rintro ⟨p, hmem, hfifo⟩
        exact hsafe.ended _ hmem _ ((ends_waits_iff h fs fuel).mpr ⟨p, rfl, hfifo⟩)
      · obtain ⟨event, hmem, hends⟩ := (hsafe.error _ heq).resolve_left id
        obtain ⟨p, rfl, hout⟩ := (ends_escapes_iff h fs fuel).mp hends
        exact ⟨root, p, rfl, hout, hmem⟩
      · rintro ⟨root', p, heq, hout, hmem⟩
        cases heq
        exact hsafe.ended _ hmem _ ((ends_escapes_iff h fs fuel).mpr ⟨p, rfl, hout⟩)

theorem str_valid (s : String) : ∀ n ∈ str s, isSurrogate n = false := by
  intro n hn
  obtain ⟨c, -, rfl⟩ := List.mem_map.mp hn
  have hc := c.valid
  rw [isSurrogate, Bool.and_eq_false_iff, decide_eq_false_iff_not, decide_eq_false_iff_not]
  rcases hc with hlow | ⟨hhigh, -⟩
  · exact Or.inl (by change ¬ _ ≤ c.val.toNat; omega)
  · exact Or.inr (by change ¬ c.val.toNat ≤ _; omega)

/-- What scoring an assertion does to the file system, and when it comes back with a result. -/
theorem scoring_iff (hstr : ∀ s : Str, s.length ≤ 32768 →
      (h.validStr s = true ↔ ∀ n ∈ s, isSurrogate n = false))
    (c : Graph.CriterionFields) (expr : String) (workdir : Str) :
    ((∀ event ∈ (evaluateAssertion h fs fuel cwd frames expr workdir).events,
        ∃ root, (rootOf h fs fuel cwd workdir).result = .ok root ∧ Confined fs root event) ∧
      ∃ r, runAssertion h fs fuel cwd frames c expr workdir = .result r) ↔
    ¬ RefusesGarbled h fs fuel cwd frames expr workdir ∧
      ¬ ReadsPipe h fs fuel cwd frames expr workdir := by
  have hresult : ∀ (passed errored : Bool) (excerpt : Str),
      (∃ r, assertionResult h c passed errored excerpt = .result r) ↔
        ∀ n ∈ excerpt.take 2000, isSurrogate n = false := by
    intro passed errored excerpt
    have hlength : (excerpt.take 2000).length ≤ 32768 := by
      rw [List.length_take]
      omega
    rw [← hstr _ hlength, assertionResult]
    split
    · rename_i hvalid
      exact iff_of_true ⟨_, rfl⟩ hvalid
    · rename_i hinvalid
      exact iff_of_false (fun ⟨r, hr⟩ => by cases hr) hinvalid
  have hplain : ∀ (passed errored : Bool) (s : String),
      ∃ r, assertionResult h c passed errored (str s) = .result r := fun passed errored s =>
    (hresult passed errored (str s)).mpr fun n hn => str_valid s n (List.mem_of_mem_take hn)
  obtain ⟨hconfined, hwaits, hrefuses⟩ := evaluate_spec h fs fuel cwd frames expr workdir
  rw [and_iff_right hconfined, ← hwaits, RefusesGarbled]
  simp only [← hrefuses]
  rw [runAssertion]
  split
  · rename_i passed heq
    simp only [heq, reduceCtorEq, false_and, exists_false, not_false_eq_true, and_self, iff_true]
    exact hplain _ _ _
  · rename_i message heq
    simp only [heq, Except.error.injEq, reduceCtorEq, false_and, exists_false, not_false_eq_true,
      and_self, iff_true]
    exact hplain _ _ _
  · rename_i path heq
    rw [hresult]
    simp only [heq, Except.error.injEq, Exc.escapes.injEq, reduceCtorEq, not_false_eq_true,
      and_true, exists_eq_left', not_exists, not_and, Bool.not_eq_true]
  · rename_i message heq
    simp only [heq, Except.error.injEq, reduceCtorEq, false_and, exists_false, not_false_eq_true,
      and_self, iff_true]
    exact hplain _ _ _
  · rename_i heq
    simp only [heq, not_true_eq_false, and_false, iff_false, not_exists]
    exact fun r hr => by cases hr

end Scoring

/-- A host that parses one assertion: the one with this text and this tree. -/
def hostOf (text : String) (tree : Expr Empty) : Host where
  F := Empty
  parse expr := if expr = text then .ok tree else .error (.syntaxError "invalid syntax")
  floatTruth := nofun
  floatNeg := nofun
  floatAdd _ _ := .error ""
  floatEq _ _ := false
  floatLt _ _ := false
  floatLe _ _ := false
  repr s := s
  maxStrDigits := 4300
  digitsFault := "Exceeds the limit (4300 digits) for integer string conversion"
  strOther _ := []
  operatorFault _ _ := "unsupported operand type(s)"
  argumentFault _ := "takes 1 positional argument"
  encodeFault _ := "surrogates not allowed"
  loopFault := "Symlink loop"
  recursionFault := "maximum recursion depth exceeded"
  openFault _ := "No such file or directory"
  denied _ := none
  decode _ _ := .ok []
  decodeReplace _ := []
  compile _ := .error none
  otherMethod _ _ _ := .error ""
  validStr s := s.all fun n => !isSurrogate n

theorem validStr_hostOf (text : String) (tree : Expr Empty) (s : Str) (_ : s.length ≤ 32768) :
    (hostOf text tree).validStr s = true ↔ ∀ n ∈ s, isSurrogate n = false := by
  simp only [hostOf, List.all_eq_true, Bool.not_eq_true']

/-- A file system with the workdir and a note in it. -/
def notedFs : Fs := fun p =>
  if p = [str "wd"] then some .dir
  else if p = [str "wd", str "note"] then some (.file [104, 105]) else none

def noteExists : Host :=
  hostOf "file_exists('note')" (.call (.name "file_exists") [.constant (.str (str "note"))] [])

def checkOf (expr : String) : Graph.CriterionFields := { id := "ok", check := .assertion expr }

theorem scored_note :
    (∀ event ∈ (evaluateAssertion noteExists notedFs 9 [] 9 "file_exists('note')"
        (str "/wd")).events, ∃ root, (rootOf noteExists notedFs 9 [] (str "/wd")).result = .ok root ∧
          Confined notedFs root event) ∧
      ∃ r, runAssertion noteExists notedFs 9 [] 9 (checkOf "file_exists('note')")
        "file_exists('note')" (str "/wd") = .result r := by
  have hok : (evaluateAssertion noteExists notedFs 9 [] 9 "file_exists('note')"
      (str "/wd")).result = .ok true := by rfl
  obtain ⟨-, hwaits, hrefuses⟩ :=
    evaluate_spec noteExists notedFs 9 [] 9 "file_exists('note')" (str "/wd")
  refine (scoring_iff noteExists notedFs 9 [] 9 (validStr_hostOf _ _) (checkOf _) _ _).mpr ⟨?_, ?_⟩
  · rintro ⟨path, hpath, -⟩
    rw [← hrefuses, hok] at hpath
    cases hpath
  · rw [← hwaits, hok]
    exact fun heq => by cases heq

/-- `file_exists('../\udc80')` -/
def strayExists : Host :=
  hostOf "file_exists('../\\udc80')"
    (.call (.name "file_exists") [.constant (.str (str "../" ++ [0xdc80]))] [])

/-- The message names the path with its surrogate, and no result is made of it. -/
theorem not_scored_stray : ¬ ∀ (h : Host) (fs : Fs) (fuel : ℕ) (cwd : Path) (frames : ℕ)
    (_ : ∀ s : Str, s.length ≤ 32768 →
      (h.validStr s = true ↔ ∀ n ∈ s, isSurrogate n = false))
    (c : Graph.CriterionFields) (expr : String) (workdir : Str),
    (∀ event ∈ (evaluateAssertion h fs fuel cwd frames expr workdir).events,
      ∃ root, (rootOf h fs fuel cwd workdir).result = .ok root ∧ Confined fs root event) ∧
    ∃ r, runAssertion h fs fuel cwd frames c expr workdir = .result r := by
  intro hall
  have hraises : runAssertion strayExists notedFs 9 [] 9
      (checkOf "file_exists('../\\udc80')") "file_exists('../\\udc80')" (str "/wd") = .raises := by rfl
  obtain ⟨-, r, hr⟩ := hall strayExists notedFs 9 [] 9 (validStr_hostOf _ _) (checkOf _)
    "file_exists('../\\udc80')" (str "/wd")
  rw [hraises] at hr
  cases hr

end Recertia.Assertion
