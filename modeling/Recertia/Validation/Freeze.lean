import Mathlib.Data.List.Sort
import Mathlib.Data.String.Basic
import Recertia.Lib.JsonText
import Recertia.Lib.LinkTree
import Recertia.Node.Sound

/-! The freeze of paths that a run must not modify (`validation/freeze.py`). -/
namespace Recertia.Validation

open LinkTree

/-- A workdir, with the regular files around it that a path may lead to. -/
structure Workdir where
  rooted : Rooted
  place : Place
  fileAbove : List String → Option Bytes
  fileAt : String → List String → Option Bytes

-- `fuel`: how far the system follows links before it gives up
-- `sha256`: the hex digest of some bytes
variable (fuel : ℕ) (sha256 : Bytes → String)

def utf8 (text : String) : Bytes := text.toUTF8.data.toList

def Workdir.nodeAt (w : Workdir) (p : Path) : Option Node :=
  if p = [] then some .dir else w.rooted.tree.get? p

/-- `(root / rel).resolve()` -/
def Workdir.resolve (w : Workdir) (rel : String) : LinkTree.Real :=
  if isAbs rel then
    match w.place.absolute rel [] with
    | .back parts => follow w.place w.rooted.tree fuel [] parts
    | .away _ => .outside
  else follow w.place w.rooted.tree fuel [] (targetParts rel)

/-- What is read along a path, if that leads to a regular file. Every part but the last has to be a
directory. -/
def Workdir.leadsToFile (w : Workdir) : ℕ → Path → List String → Option Bytes
  | 0, _, _ => none
  | _ + 1, at_, [] =>
    match w.nodeAt at_ with
    | some (.file content _) => some content
    | _ => none
  | n + 1, at_, part :: todo =>
    if isDir w.rooted.tree at_ = false then none
    else if part = ".." then
      if at_ = [] then
        match w.place.above todo with
        | .back parts => w.leadsToFile n [] parts
        | .away _ => w.fileAbove todo
      else w.leadsToFile n at_.dropLast todo
    else
      match w.rooted.tree.get? (at_ ++ [part]) with
      | some (.link target) =>
        if isAbs target then
          match w.place.absolute target todo with
          | .back parts => w.leadsToFile n [] parts
          | .away _ => w.fileAt target todo
        else w.leadsToFile n at_ (targetParts target ++ todo)
      | _ => w.leadsToFile n (at_ ++ [part]) todo

/-- `p.read_bytes()` of an entry, if `p.is_file()`; both follow a link. -/
def Workdir.regularFile (w : Workdir) : Path × Node → Option Bytes
  | (_, .dir) => none
  | (_, .file content _) => some content
  | (p, .link target) =>
    if isAbs target then
      match w.place.absolute target [] with
      | .back parts => w.leadsToFile fuel [] parts
      | .away _ => w.fileAt target []
    else w.leadsToFile fuel p.dropLast (targetParts target)

/-- `sorted(target.rglob("*"))`: a link to a directory is an entry, and is not gone into. -/
def Workdir.rglob (w : Workdir) (target : Path) : List (Path × Node) :=
  (w.rooted.tree.rows.filter fun row => target.isPrefixOf row.1 && row.1 ≠ target).insertionSort
    fun a b => a.1 ≤ b.1

/-- The regular files below a directory, in the order of their paths. -/
def Workdir.files (w : Workdir) (target : Path) : List (Path × Bytes) :=
  (w.rglob target).filterMap fun row => (w.regularFile fuel row).map fun content => (row.1, content)

def slashed (c : Char) : Char := if c = '\\' then '/' else c

/-- `str(p.relative_to(root)).replace("\\", "/")` -/
def relName (p : Path) : String :=
  String.ofList ((['/'].intercalate (p.map String.toList)).map slashed)

/-- The text of `entries`, hashed names and digests. -/
def blob (files : List (Path × Bytes)) : Bytes :=
  utf8 (Json.pairsValue (files.map fun f => (relName f.1, sha256 f.2))).dumps

/-- `path_digest`, or nothing where it raises: for a path that leads out of the workdir or into a
loop, and for a regular file in a directory that `p.relative_to(root)` does not find below `root`.
`canonical`: whether `root` is spelled as `root.resolve()` is. -/
def pathDigest (canonical : Bool) (w : Workdir) (rel : String) : Option String :=
  match w.resolve fuel rel with
  | .outside | .loop => none
  | .inside target =>
    match w.nodeAt target with
    | none => some (sha256 (utf8 "missing:" ++ utf8 rel))
    | some (.file content _) => some (sha256 content)
    | some _ =>
      if canonical = false ∧ w.files fuel target ≠ [] then none
      else some (sha256 (blob sha256 (w.files fuel target)))

/-- What the function of the generated script comes to. -/
inductive Dug
  | escape
  | raises
  | hex (digest : String)
  deriving DecidableEq, Repr

/-- `dig`, whose root is always resolved. -/
def dig (w : Workdir) (rel : String) : Dug :=
  match w.resolve fuel rel with
  | .outside => .escape
  | .loop => .raises
  | .inside target =>
    match w.nodeAt target with
    | none => .hex (sha256 (utf8 ("missing:" ++ rel)))
    | some (.file content _) => .hex (sha256 content)
    | some _ => .hex (sha256 (blob sha256 (w.files fuel target)))

/-- `expected = {p: path_digest(workdir, p) for p in paths}` -/
def expected (canonical : Bool) (w : Workdir) (paths : List String) :
    Option (List (String × String)) :=
  paths.mapM fun p => (pathDigest fuel sha256 canonical w p).map fun digest => (p, digest)

/-- Whether an import of the script finds a file of the workdir, which `python -c` looks in first.
`lookups`: the paths that `hashlib`, `json` and `pathlib`, and what they import, are looked up as. -/
def Workdir.shadows (w : Workdir) (lookups : List (List String)) : Bool :=
  lookups.any fun p => (w.leadsToFile fuel [] p).isSome

/-- The exit code of the script: one for a bad path, and for an exception. Where a file of the
workdir is imported, its code runs instead, and ends in any exit code. -/
def freezeScript (lookups : List (List String)) (interposed : ℕ) (exp : List (String × String))
    (w : Workdir) : ℕ :=
  if w.shadows fuel lookups then interposed
  else if exp.all fun e => dig fuel sha256 w e.1 = .hex e.2 then 0 else 1

/-- Whether the sealed criterion passes; `expect_exit=0`. -/
def passes (lookups : List (List String)) (interposed : ℕ) (exp : List (String × String))
    (w : Workdir) : Bool := freezeScript fuel sha256 lookups interposed exp w = 0

end Recertia.Validation
