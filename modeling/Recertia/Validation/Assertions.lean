import Recertia.Contract.Criteria
import Recertia.Lib.PosixFs
import Recertia.Lib.Traced

/-! The restricted evaluator of assertions (`validation/assertions.py`) and the score of an assertion
(`_run_assertion` of `validation/criteria.py`). -/
namespace Recertia.Assertion

open PosixFs

-- A string is its code points, which may be lone surrogates.
abbrev Str := Text

def str (s : String) : Str := s.toList.map Char.toNat

def isSurrogate (n : ℕ) : Bool := 0xd800 ≤ n && n ≤ 0xdfff

/-- The attributes of a path that the evaluator knows, and any other. -/
inductive Attr
  | exists_ | isFile | isDir | isSymlink | readText | readBytes
  | name | suffix | stem | asPosix | parts
  | other (word : String)
  deriving DecidableEq

def Attr.text : Attr → String
  | .exists_ => "exists"
  | .isFile => "is_file"
  | .isDir => "is_dir"
  | .isSymlink => "is_symlink"
  | .readText => "read_text"
  | .readBytes => "read_bytes"
  | .name => "name"
  | .suffix => "suffix"
  | .stem => "stem"
  | .asPosix => "as_posix"
  | .parts => "parts"
  | .other word => word

/-- `_ALLOWED_PATH_ATTRS` -/
def Attr.allowed : Attr → Bool
  | .other _ => false
  | _ => true

def Attr.startsWithRead : Attr → Bool
  | .readText | .readBytes => true
  | _ => false

inductive Number (F : Type)
  | int (i : Int)
  | float (f : F)

/-- Values of an evaluation; a tuple is the parts of a path. -/
inductive Val (F : Type)
  | none
  | bool (b : Bool)
  | int (i : Int)
  | float (f : F)
  | str (s : Str)
  | bytes (content : List UInt8)
  | tuple (items : List Str)
  | path (p : Path)

inductive Constant (F : Type)
  | none
  | bool (b : Bool)
  | int (i : Int)
  | float (f : F)
  | str (s : Str)
  | bytes (content : List UInt8)
  | other (typeName : String)

inductive UnaryOp
  | not | uAdd | uSub | invert
  deriving DecidableEq

inductive BoolOp
  | and | or
  deriving DecidableEq

inductive CmpOp
  | eq | notEq | lt | ltE | gt | gtE | in_ | notIn | is_ | isNot
  deriving DecidableEq

inductive BinOp
  | add | div | other
  deriving DecidableEq

/-- `ast` expressions; `other` is a node of another type, with its parts. -/
inductive Expr (F : Type)
  | expression (body : Expr F)
  | constant (value : Constant F)
  | name (id : String)
  | unaryOp (op : UnaryOp) (operand : Expr F)
  | boolOp (op : BoolOp) (values : List (Expr F))
  | compare (left : Expr F) (ops : List (CmpOp × Expr F))
  | binOp (left : Expr F) (op : BinOp) (right : Expr F)
  | attributeOf (value : Expr F) (attr : Attr)
  | call (func : Expr F) (args : List (Expr F)) (keywords : List (String × Expr F))
  | joinedStr (values : List (Expr F))
  | formattedValue (value : Expr F) (formatSpec : Option (Expr F))
  | other (kind : String) (parts : List (Expr F))

/-- The type of a node. -/
def Expr.kind {F : Type} : Expr F → String
  | .expression _ => "Expression"
  | .constant _ => "Constant"
  | .name _ => "Name"
  | .unaryOp .. => "UnaryOp"
  | .boolOp .. => "BoolOp"
  | .compare .. => "Compare"
  | .binOp .. => "BinOp"
  | .attributeOf .. => "Attribute"
  | .call .. => "Call"
  | .joinedStr _ => "JoinedStr"
  | .formattedValue .. => "FormattedValue"
  | .other kind _ => kind

/-- What an evaluation ends in instead of a value: an `UnsafeAssertionError`, the one for a path
that leaves the workdir, another `Exception` by its text, and a read that waits for ever. -/
inductive Exc
  | unsafe_ (message : String)
  | escapes (path : Str)
  | fault (message : String)
  | waits
  deriving DecidableEq

/-- What is done on the way: a node is evaluated, a path is resolved to be confined, tested or opened
to read, and any other method of a path. -/
inductive Event
  | visit (kind : String)
  | resolve (path : Str) (p : Path)
  | test (p : Path)
  | read (p : Path)
  | call (attr : String) (p : Path)
  deriving DecidableEq

/-- What `ast.parse` raises: a `SyntaxError`, or another exception. -/
inductive ParseFault
  | syntaxError (message : String)
  | other (message : String)

/-- What Python gives: the parser, floats, the texts of values and exceptions, codecs, `re`, the
errors of the system, the other methods of a path, and the check of a string with a bound. -/
structure Host where
  F : Type
  parse : String → Except ParseFault (Expr F)
  floatTruth : F → Bool
  floatNeg : F → F
  floatAdd : Number F → Number F → Except String (Number F)
  floatEq : Number F → Number F → Bool
  floatLt : Number F → Number F → Bool
  floatLe : Number F → Number F → Bool
  repr : String → String
  maxStrDigits : ℕ
  digitsFault : String
  strOther : Val F → Str
  operatorFault : String → List (Val F) → String
  argumentFault : Attr → String
  encodeFault : Str → String
  loopFault : String
  recursionFault : String
  openFault : Path → String
  denied : Event → Option String
  decode : List (Val F) → List UInt8 → Except String Str
  decodeReplace : List UInt8 → Str
  compile : Str → Except (Option String) (Str → Except String Bool)
  otherMethod : String → Path → List (Val F) → Except String (Val F)
  validStr : Str → Bool

variable (h : Host)

abbrev Run := Traced Event Exc

open Traced (emit raise ofExcept)

section Values

variable {h}

def Val.number? {F : Type} : Val F → Option (Number F)
  | .bool b => some (.int (if b then 1 else 0))
  | .int i => some (.int i)
  | .float f => some (.float f)
  | _ => Option.none

/-- `bool(value)` -/
def truth : Val h.F → Bool
  | .none => false
  | .bool b => b
  | .int i => i ≠ 0
  | .float f => h.floatTruth f
  | .str s => s ≠ []
  | .bytes content => content ≠ []
  | .tuple items => items ≠ []
  | .path _ => true

def numEq : Number h.F → Number h.F → Bool
  | .int a, .int b => a = b
  | a, b => h.floatEq a b

def numLt : Number h.F → Number h.F → Bool
  | .int a, .int b => a < b
  | a, b => h.floatLt a b

def numLe : Number h.F → Number h.F → Bool
  | .int a, .int b => a ≤ b
  | a, b => h.floatLe a b

def eqVal (a b : Val h.F) : Bool :=
  match a.number?, b.number? with
  | some m, some n => numEq m n
  | _, _ =>
    match a, b with
    | .none, .none => true
    | .str s, .str t => s = t
    | .bytes s, .bytes t => s = t
    | .tuple s, .tuple t => s = t
    | .path p, .path q => p = q
    | _, _ => false

/-- Lists in the order of their first difference. -/
def before {α : Type} (lt eq : α → α → Bool) : List α → List α → Bool
  | _, [] => false
  | [], _ :: _ => true
  | a :: as, b :: bs => if eq a b then before lt eq as bs else lt a b

def strLt (s t : Str) : Bool := before (fun m n => m < n) (fun m n => m = n) s t

def strsLt (s t : List Str) : Bool := before strLt (fun a b => a = b) s t

def bytesLt (s t : List UInt8) : Bool :=
  strLt (s.map UInt8.toNat) (t.map UInt8.toNat)

/-- `a < b`, or `a <= b` -/
def ordered (strict : Bool) (word : String) (a b : Val h.F) : Except Exc Bool :=
  match a.number?, b.number? with
  | some m, some n => .ok (if strict then numLt m n else numLe m n)
  | _, _ =>
    match a, b with
    | .str s, .str t => .ok (if strict then strLt s t else !strLt t s)
    | .bytes s, .bytes t => .ok (if strict then bytesLt s t else !bytesLt t s)
    | .tuple s, .tuple t => .ok (if strict then strsLt s t else !strsLt t s)
    | .path p, .path q => .ok (if strict then strsLt p q else !strsLt q p)
    | _, _ => .error (.fault (h.operatorFault word [a, b]))

/-- `left in right` -/
def contains (left right : Val h.F) : Except Exc Bool :=
  match right with
  | .str t =>
    match left with
    | .str s => .ok (decide (s <:+: t))
    | _ => .error (.fault (h.operatorFault "in" [left, right]))
  | .bytes t =>
    match left with
    | .bytes s => .ok (decide (s <:+: t))
    | .bool b => .ok (t.any fun c => c.toNat = if b then 1 else 0)
    | .int i =>
      if 0 ≤ i ∧ i < 256 then .ok (t.any fun c => (c.toNat : Int) = i)
      else .error (.fault (h.operatorFault "in" [left, right]))
    | _ => .error (.fault (h.operatorFault "in" [left, right]))
  | .tuple items => .ok (items.any fun item => eqVal left (.str item))
  | _ => .error (.fault (h.operatorFault "in" [left, right]))

def compareOp (op : CmpOp) (left right : Val h.F) : Except Exc Bool :=
  match op with
  | .eq => .ok (eqVal left right)
  | .notEq => .ok (!eqVal left right)
  | .lt => ordered true "<" left right
  | .ltE => ordered false "<=" left right
  | .gt => ordered true ">" right left
  | .gtE => ordered false ">=" right left
  | .in_ => contains left right
  | .notIn => (contains left right).map fun b => !b
  | .is_ | .isNot => .error (.unsafe_ "disallowed comparison")

def ofNumber {F : Type} : Number F → Val F
  | .int i => .int i
  | .float f => .float f

def unary (op : UnaryOp) (operand : Val h.F) : Except Exc (Val h.F) :=
  match op with
  | .not => .ok (.bool !truth operand)
  | .uAdd =>
    match operand.number? with
    | some n => .ok (ofNumber n)
    | none => .error (.fault (h.operatorFault "unary +" [operand]))
  | .uSub =>
    match operand.number? with
    | some (.int i) => .ok (.int (-i))
    | some (.float f) => .ok (.float (h.floatNeg f))
    | none => .error (.fault (h.operatorFault "unary -" [operand]))
  | .invert => .error (.unsafe_ "disallowed unary operator")

def add (left right : Val h.F) : Except Exc (Val h.F) :=
  match left, right with
  | .str s, .str t => .ok (.str (s ++ t))
  | _, _ =>
    match left.number?, right.number? with
    | some (.int i), some (.int j) => .ok (.int (i + j))
    | some m, some n =>
      match h.floatAdd m n with
      | .ok sum => .ok (ofNumber sum)
      | .error message => .error (.fault message)
    | _, _ => .error (.unsafe_ "disallowed binary operator")

/-- The text of an absolute path; its anchor has two slashes where it was spelled with two. -/
def pathText (anchor : Str) (parts : List Str) : Str := anchor ++ [slash].intercalate parts

/-- `str(value)`; a number may have too many digits. -/
def strOf : Val h.F → Except Exc Str
  | .none => .ok (str "None")
  | .bool b => .ok (str (if b then "True" else "False"))
  | .int i =>
    if (toString i.natAbs).length ≤ h.maxStrDigits then .ok (str (toString i))
    else .error (.fault h.digitsFault)
  | .str s => .ok s
  | .path p => .ok (pathText [slash] p)
  | v => .ok (h.strOther v)

def constant : Constant h.F → Except Exc (Val h.F)
  | .none => .ok .none
  | .bool b => .ok (.bool b)
  | .int i => .ok (.int i)
  | .float f => .ok (.float f)
  | .str s => .ok (.str s)
  | .bytes content => .ok (.bytes content)
  | .other typeName => .error (.unsafe_ ("disallowed constant: " ++ typeName))

def baseName (p : Path) : Str := p.getLast?.getD []

def suffixOf (name : Str) : Str :=
  let ext := (name.reverse.takeWhile (· ≠ dot)).reverse
  if ext ≠ [] ∧ ext.length + 1 < name.length then dot :: ext else []

/-- The attributes that are no methods. -/
def property (p : Path) : Attr → Option (Val h.F)
  | .name => some (.str (baseName p))
  | .suffix => some (.str (suffixOf (baseName p)))
  | .stem => some (.str ((baseName p).take
      ((baseName p).length - (suffixOf (baseName p)).length)))
  | .parts => some (.tuple ([slash] :: p))
  | _ => none

end Values

-- `fs`, `fuel`: the file system, and how far it follows links before it gives up
variable (fs : Fs) (fuel : ℕ)

/-- A name that `os.fsencode` or `lstat` refuses. -/
def badPart (part : Str) : Bool :=
  part.any fun c => c = 0 || (isSurrogate c && !(0xdc80 ≤ c && c ≤ 0xdcff))

/-- `path.resolve()` -/
def resolve (parts : List Str) : Run Path :=
  match parts.find? badPart with
  | some part => raise (.fault (h.encodeFault part))
  | none =>
    match follow fs fuel [] parts with
    | some p => pure p
    | none => raise (.fault h.loopFault)

/-- `_confine`, of an absolute path by its anchor and parts. -/
def confine (root : Path) (anchor : Str) (parts : List Str) : Run Path := do
  let resolved ← resolve h fs fuel parts
  emit (.resolve (pathText anchor parts) resolved)
  if root.isPrefixOf resolved then return resolved else raise (.escapes (pathText anchor parts))

/-- `left / text`: an absolute text replaces the path. -/
def joinPath (left : Path) (text : Str) : Str × List Str :=
  if isAbs text then
    (if (text.takeWhile (· = slash)).length = 2 then [slash, slash] else [slash], partsOf text)
  else ([slash], left ++ partsOf text)

def confineJoin (root left : Path) (text : Str) : Run Path :=
  confine h fs fuel root (joinPath left text).1 (joinPath left text).2

/-- One question to the file system about a path. -/
def test (p : Path) (answer : Bool) : Run Bool := do
  emit (.test p)
  match h.denied (.test p) with
  | some message => raise (.fault message)
  | none => return answer

/-- What a path that is opened holds. A pipe has no other end. -/
def readBytes (p : Path) : Run (List UInt8) := do
  emit (.read p)
  match h.denied (.read p), stat fs fuel p with
  | none, some (.file content) => return content
  | none, some .fifo => raise .waits
  | some message, _ => raise (.fault message)
  | none, _ => raise (.fault (h.openFault p))

def isFile : Option Node → Bool
  | some (.file _) => true
  | _ => false

def isLink : Option Node → Bool
  | some (.link _) => true
  | _ => false

/-- `method(*args)` -/
def method (p : Path) (attr : Attr) (args : List (Val h.F)) : Run (Val h.F) :=
  match attr with
  | .other word => do
    emit (.call word p)
    match h.otherMethod word p args with
    | .ok v => return v
    | .error message => raise (.fault message)
  | .readText =>
    if 2 < args.length then raise (.fault (h.argumentFault attr))
    else do
      let content ← readBytes h fs fuel p
      match h.decode args content with
      | .ok text => return .str text
      | .error message => raise (.fault message)
  | _ =>
    if args.length ≠ 0 then raise (.fault (h.argumentFault attr))
    else
      match attr with
      | .exists_ => Val.bool <$> test h p (stat fs fuel p).isSome
      | .isFile => Val.bool <$> test h p (isFile (stat fs fuel p))
      | .isDir => Val.bool <$> test h p (stat fs fuel p = some .dir)
      | .isSymlink => Val.bool <$> test h p (isLink (nodeAt fs p))
      | .readBytes => Val.bytes <$> readBytes h fs fuel p
      | _ => return .str (pathText [slash] p)

def fileExists (root : Path) (path : Str) : Run Bool := do
  let confined ← confineJoin h fs fuel root root path
  test h confined (isFile (stat fs fuel confined))

def fileContains (root : Path) (path pattern : Str) : Run Bool :=
  if 256 < pattern.length then return false
  else
    match h.compile pattern with
    | .error none => return false
    | .error (some message) => raise (.fault message)
    | .ok search => do
      let confined ← confineJoin h fs fuel root root path
      if ← test h confined (isFile (stat fs fuel confined)) then
        let content ← readBytes h fs fuel confined
        match search (h.decodeReplace (content.take (1024 * 1024))) with
        | .ok found => return found
        | .error message => raise (.fault message)
      else return false

section Nodes

-- `visit`: the evaluation of a part of the node
variable {h} (visit : Expr h.F → Run (Val h.F))

def visitName (root : Path) (id : String) : Run (Val h.F) :=
  if id = "workdir" then return .path root
  else if id = "True" then return .bool true
  else if id = "False" then return .bool false
  else if id = "None" then return .none
  else raise (.unsafe_ ("unknown name: " ++ h.repr id))

/-- The loops of `visit_BoolOp`: the first value that decides, or the last one. -/
def visitBoolOp (decides : Val h.F → Bool) : Val h.F → List (Expr h.F) → Run (Val h.F)
  | value, [] => return value
  | _, child :: values => do
    let value ← visit child
    if decides value then return value else visitBoolOp decides value values

def visitCompare : Val h.F → List (CmpOp × Expr h.F) → Run (Val h.F)
  | _, [] => return .bool true
  | left, (op, comparator) :: ops => do
    let right ← visit comparator
    let ok ← ofExcept (compareOp op left right)
    if ok then visitCompare right ops else return .bool false

def visitBinOp (root : Path) (op : BinOp) (left right : Val h.F) : Run (Val h.F) :=
  match op, left with
  | .div, .path p => do
    let text ← ofExcept (strOf right)
    Val.path <$> confineJoin h fs fuel root p text
  | .add, _ => ofExcept (add left right)
  | _, _ => raise (.unsafe_ "disallowed binary operator")

def visitAttribute (value : Val h.F) (attr : Attr) : Run (Val h.F) :=
  match value with
  | .path p =>
    if attr.allowed = false then
      raise (.unsafe_ ("disallowed path attribute: " ++ h.repr attr.text))
    else
      match property p attr with
      | some v => return v
      | none => raise (.unsafe_ ("path attribute " ++ h.repr attr.text ++
          " must be called (e.g. ." ++ attr.text ++ "()), not used bare"))
  | _ => raise (.unsafe_ "attribute access is only allowed on workdir paths")

def visitMethod (root : Path) (obj : Val h.F) (attr : Attr) (args : List (Expr h.F)) :
    Run (Val h.F) :=
  match obj with
  | .path p =>
    if attr.allowed = false then raise (.unsafe_ ("disallowed call: " ++ h.repr attr.text))
    else if (property (h := h) p attr).isSome then
      raise (.unsafe_ ("path attribute " ++ h.repr attr.text ++ " is not callable"))
    else do
      if attr.startsWithRead then
        let _ ← confine h fs fuel root [slash] p
      let args ← args.mapM visit
      method h fs fuel p attr args
  | _ => raise (.unsafe_ ("disallowed call: " ++ h.repr attr.text))

def visitCall (root : Path) (func : Expr h.F) (args : List (Expr h.F))
    (keywords : List (String × Expr h.F)) : Run (Val h.F) :=
  if keywords ≠ [] then raise (.unsafe_ "keyword arguments are not allowed in assertions")
  else
    match func with
    | .name "file_exists" => do
      let args ← args.mapM visit
      match args with
      | [.str path] => Val.bool <$> fileExists h fs fuel root path
      | _ => raise (.unsafe_ "file_exists expects one string path")
    | .name "file_contains" => do
      let args ← args.mapM visit
      match args with
      | [.str path, .str pattern] => Val.bool <$> fileContains h fs fuel root path pattern
      | _ => raise (.unsafe_ "file_contains expects a path and a pattern")
    | .attributeOf value attr => do
      let obj ← visit value
      visitMethod fs fuel visit root obj attr args
    | _ => raise (.unsafe_ "only allowlisted path methods may be called")

def visitJoinedStr : List (Expr h.F) → Run Str
  | [] => return []
  | .constant (.str s) :: values => do
    let rest ← visitJoinedStr values
    return s ++ rest
  | .formattedValue value _ :: values => do
    let v ← visit value
    let text ← ofExcept (strOf v)
    let rest ← visitJoinedStr values
    return text ++ rest
  | _ :: _ => raise (.unsafe_ "disallowed f-string component")

end Nodes

/-- `_SafeEval.visit`, with so many frames left. -/
def visit (root : Path) : ℕ → Expr h.F → Run (Val h.F)
  | 0, _ => raise (.fault h.recursionFault)
  | _ + 1, .other kind _ => raise (.unsafe_ ("disallowed expression node: " ++ kind))
  | n + 1, .expression body => do
    emit (.visit "Expression")
    visit root n body
  | _ + 1, .constant value => do
    emit (.visit "Constant")
    ofExcept (constant value)
  | _ + 1, .name id => do
    emit (.visit "Name")
    visitName root id
  | n + 1, .unaryOp op operand => do
    emit (.visit "UnaryOp")
    let operand ← visit root n operand
    ofExcept (unary op operand)
  | n + 1, .boolOp .and values => do
    emit (.visit "BoolOp")
    visitBoolOp (visit root n) (fun v => !truth v) (.bool true) values
  | n + 1, .boolOp .or values => do
    emit (.visit "BoolOp")
    visitBoolOp (visit root n) truth (.bool false) values
  | n + 1, .compare left ops => do
    emit (.visit "Compare")
    let left ← visit root n left
    visitCompare (visit root n) left ops
  | n + 1, .binOp left op right => do
    emit (.visit "BinOp")
    let left ← visit root n left
    let right ← visit root n right
    visitBinOp fs fuel root op left right
  | n + 1, .attributeOf value attr => do
    emit (.visit "Attribute")
    let value ← visit root n value
    visitAttribute value attr
  | n + 1, .call func args keywords => do
    emit (.visit "Call")
    visitCall fs fuel (visit root n) root func args keywords
  | n + 1, .joinedStr values => do
    emit (.visit "JoinedStr")
    Val.str <$> visitJoinedStr (visit root n) values
  | n + 1, .formattedValue value _ => do
    emit (.visit "FormattedValue")
    visit root n value

-- `cwd`, `frames`: where the process is, and how deep it may call
variable (cwd : Path) (frames : ℕ)

/-- `workdir.resolve()` -/
def rootOf (workdir : Str) : Run Path :=
  resolve h fs fuel (if isAbs workdir then partsOf workdir else cwd ++ partsOf workdir)

def evaluateAssertion (expr : String) (workdir : Str) : Run Bool :=
  match h.parse expr with
  | .error (.syntaxError message) => raise (.unsafe_ ("invalid assertion expression: " ++ message))
  | .error (.other message) => raise (.fault message)
  | .ok tree => do
    let root ← rootOf h fs fuel cwd workdir
    let value ← visit h fs fuel root frames tree
    return truth value

/-- What scoring comes to: a result, an exception, or a read that never comes back. -/
inductive Scored
  | result (r : Graph.CriterionResult)
  | raises
  | hangs

def toText (s : Str) : String := String.ofList (s.map Char.ofNat)

/-- `CriterionResult(...)`; a string with a bound has to be valid. -/
def assertionResult (c : Graph.CriterionFields) (passed errored : Bool) (excerpt : Str) : Scored :=
  if h.validStr (excerpt.take 2000) then
    .result
      { criterionId := c.id
        kind := some .assertion
        passed
        weight := c.weight
        outputExcerpt := toText (excerpt.take 2000)
        errored }
  else .raises

/-- `_run_assertion` -/
def runAssertion (c : Graph.CriterionFields) (expr : String) (workdir : Str) : Scored :=
  match (evaluateAssertion h fs fuel cwd frames expr workdir).result with
  | .ok passed => assertionResult h c passed false
      (str ("assertion " ++ h.repr expr ++ " => " ++ if passed then "True" else "False"))
  | .error (.unsafe_ message) => assertionResult h c false true
      (str ("assertion rejected: " ++ message))
  | .error (.escapes path) => assertionResult h c false true
      (str "assertion rejected: path escapes workdir: " ++ path)
  | .error (.fault message) => assertionResult h c false true (str ("assertion error: " ++ message))
  | .error .waits => .hangs

end Recertia.Assertion
