import Mathlib.Data.Prod.Lex
import Recertia.Lib.ImplicitTx
import Recertia.Lib.Keyset
import Recertia.Retrieval.Cache

/-! The index object: two tables and their metadata behind one connection, and the embeddings that
are mirrored in memory. -/
namespace Recertia.Retrieval

open Skill (SkillRef)
open ImplicitTx

/-- The tables `skills` and `skills_fts` in the order of their scans, and the rows of `meta`. -/
structure Content where
  skills : Table SkillRef Row := .empty
  fts : List (SkillRef × String) := []
  snapshotId : Option String := none
  libraryFingerprint : Option String := none

/-- What a write does one after the other. `compute` is what may raise and changes nothing: the
parameters of the rows, or the rows read for the snapshot id. -/
inductive IndexStmt
  | deleteSkills
  | deleteFts
  | deleteSkill (ref : SkillRef)
  | deleteFtsRow (ref : SkillRef)
  | insertSkill (row : Row)
  | insertFts (row : Row)
  | setSnapshot
  | setFingerprint (fingerprint : String)
  | compute
  | commit

/-- A write of the index. -/
inductive IndexWrite
  | rebuild (rows : List Row) (libraryFingerprint : Option String)
  | upsert (row : Row) (libraryFingerprint : Option String)

/-- The statements that a write ends with. -/
def closingStmts (libraryFingerprint : Option String) : List IndexStmt :=
  [.compute, .setSnapshot] ++ (libraryFingerprint.toList.map .setFingerprint ++ [.commit])

/-- The statements of a write, in their order. -/
def IndexWrite.stmts : IndexWrite → List IndexStmt
  | .rebuild rows fingerprint =>
    [.deleteSkills, .deleteFts, .compute] ++
      (rows.map .insertSkill ++ (rows.map .insertFts ++ closingStmts fingerprint))
  | .upsert row fingerprint =>
    [.compute, .deleteSkill row.ref, .deleteFtsRow row.ref, .insertSkill row, .insertFts row] ++
      closingStmts fingerprint

section SkillIndex
variable {W : Type*} (m : Machine W)
-- The vectors of documents and queries, and their similarity.
variable {V : Type*} (embed : String → V) (cosine : V → V → ℚ)

/-- `_compute_snapshot_id_unlocked` -/
def Content.computeSnapshotId (c : Content) : String :=
  Index.snapshotId m ⟨c.skills.rows.map Prod.snd⟩

def Content.exec : IndexStmt → Content → Option Content
  | .deleteSkills, c => some { c with skills := .empty }
  | .deleteFts, c => some { c with fts := [] }
  | .deleteSkill ref, c => some { c with skills := c.skills.delete fun k _ => k = ref }
  | .deleteFtsRow ref, c => some { c with fts := c.fts.filter fun entry => entry.1 ≠ ref }
  | .insertSkill row, c => (c.skills.insert row.ref row).map fun skills => { c with skills }
  | .insertFts row, c => some { c with fts := c.fts ++ [(row.ref, row.document)] }
  | .setSnapshot, c => some { c with snapshotId := some (c.computeSnapshotId m) }
  | .setFingerprint fingerprint, c => some { c with libraryFingerprint := some fingerprint }
  | .compute, c => some c
  | .commit, c => some c

structure SkillIndex (V : Type*) where
  conn : Conn Content
  embCache : Option (Table SkillRef V) := none

/-- The mirror after a write that has returned. -/
def IndexWrite.mirror : IndexWrite → Option (Table SkillRef V) → Option (Table SkillRef V)
  | .rebuild .., _ => none
  | .upsert row _, cache =>
    cache.map fun embeddings =>
      embeddings.upsert row.ref (embed row.document) fun _ => embed row.document

/-- `rebuild` and `upsert`, and whether they return; where they raise the mirror stays. -/
def SkillIndex.write (s : SkillIndex V) (w : IndexWrite) (fault : Option Fault) :
    SkillIndex V × Bool :=
  let (conn, returned) := call (Content.exec m) w.stmts fault s.conn
  ({ conn, embCache := if returned then w.mirror embed s.embCache else s.embCache }, returned)

/-- `{(sid, ver): tuple(json.loads(emb)) for sid, ver, emb in rows}` -/
def Content.embeddings (c : Content) : Table SkillRef V :=
  c.skills.mapValues fun row => embed row.document

/-- `_embeddings_unlocked` -/
def SkillIndex.embeddings (s : SkillIndex V) : Table SkillRef V :=
  s.embCache.getD (s.conn.live.embeddings embed)

def SkillIndex.warm (s : SkillIndex V) : SkillIndex V :=
  { s with embCache := some (s.embeddings embed) }

def SkillIndex.unloadEmbeddings (s : SkillIndex V) : SkillIndex V := { s with embCache := none }

def SkillIndex.isFresh (s : SkillIndex V) (libraryFingerprint : String) : Bool :=
  s.conn.live.libraryFingerprint = some libraryFingerprint

def SkillIndex.snapshotId (s : SkillIndex V) : String :=
  s.conn.live.snapshotId.getD (s.conn.live.computeSnapshotId m)

/-- The ranks of the full-text search as scores. -/
def SkillIndex.lexicalTopK (s : SkillIndex V) (query : String) (k : ℕ) : List (SkillRef × ℚ) :=
  let tokens := tokenize query
  if tokens = [] then []
  else ((m.bm25 s.conn.live.fts (tokens.take 32)).take k).zipIdx.map fun (ref, i) =>
    (ref, 1 / (1 + (i : ℚ)))

/-- A version with its similarity and its position in the mirror. -/
structure ScoredVersion where
  ref : SkillRef
  score : ℚ
  position : ℕ

/-- `(t[2], t[3])`: the position is negated, so that the first of equals is the largest. -/
def ScoredVersion.key (t : ScoredVersion) : ℚ ×ₗ ℤ := toLex (t.score, -(t.position : ℤ))

/-- `heapq.nlargest(k, scored, key=...)` -/
def topScored (q : V) (k : ℕ) (embeddings : Table SkillRef V) : List (SkillRef × ℚ) :=
  let scored := embeddings.rows.zipIdx.map fun ((ref, vector), i) =>
    ScoredVersion.mk ref (cosine q vector) i
  ((Keyset.order ScoredVersion.key scored).take k).map fun t => (t.ref, t.score)

/-- `vector_top_k`; the mirror is warm after it. -/
def SkillIndex.vectorTopK (s : SkillIndex V) (query : String) (k : ℕ) (qEmb : Option V) :
    List (SkillRef × ℚ) × SkillIndex V :=
  (topScored cosine (qEmb.getD (embed query)) k (s.embeddings embed), s.warm embed)

/-- The calls of an index object. Where the mirror is cold, the scan that loads it can raise. -/
inductive IndexCall
  | write (w : IndexWrite)
  | unloadEmbeddings
  | search

/-- The rollback that a scan may end in. -/
def SkillIndex.scanFailed (s : SkillIndex V) (fault : Fault) : SkillIndex V :=
  if fault.rollsBack then { s with conn := ⟨s.conn.committed, s.conn.committed⟩ } else s

def SkillIndex.step (s : SkillIndex V) : IndexCall × Option Fault → SkillIndex V
  | (.write w, fault) => (s.write m embed w fault).1
  | (.unloadEmbeddings, _) => s.unloadEmbeddings
  | (.search, none) => s.warm embed
  | (.search, some fault) => if s.embCache.isSome then s else s.scanFailed fault

def SkillIndex.run (s : SkillIndex V) (calls : List (IndexCall × Option Fault)) : SkillIndex V :=
  calls.foldl (SkillIndex.step m embed) s

end SkillIndex

end Recertia.Retrieval
