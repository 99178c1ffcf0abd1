import Mathlib.Algebra.Order.Field.Rat
import Recertia.Lib.Json
import Recertia.Lib.Text
import Recertia.Skill.Library

/-! The retrieval pipeline over one index: candidates, filter, rerank, floor, demotion, and the best
few. -/
namespace Recertia.Retrieval

open Recertia.Skill Json

inductive PreconditionKind
  | fileExists | pathGlob | envPresent | toolAvailable | probe
  deriving DecidableEq, Repr

structure Precondition where
  kind : PreconditionKind
  value : String
  arguments : Dict := []

inductive Scope
  | run | project | org | global
  deriving DecidableEq, Repr

/-- A row of the index. -/
structure Row where
  ref : SkillRef
  scope : Scope
  lifecycle : Lifecycle
  active : Bool
  curation : Curation
  applications : ℕ
  lastUsedAt : Option ℤ
  toolFingerprint : List (String × String)
  preconditions : List Precondition
  document : String

/-- The rows in the order of a scan. -/
structure Index where
  rows : List Row

/-- What a read-only probe does; an error outside those that count as a failure ends the search. -/
inductive ProbeOutcome
  | passed | failed | raised
  deriving DecidableEq, Repr

/-- What the pipeline computes with: full-text ranking, embeddings, real powers and rounding, the
probes of a machine whose files stay as they are, and a digest. -/
structure Machine (W : Type*) where
  bm25 : List (SkillRef × String) → List String → List SkillRef
  cosine : String → String → ℚ
  decay : ℤ → ℚ
  round : ℚ → ℚ
  probe : String → Dict → W → ProbeOutcome
  digest : String → String
  digestNonempty : ∀ s, digest s ≠ ""

structure RetrievalConfig where
  vectorTopK : ℕ := 20
  lexicalTopK : ℕ := 20
  rrfK : ℕ := 60
  rerankTopN : ℕ := 10
  minScore : ℚ := 40 / 100
  maxCandidates : ℕ := 3
  probeBudgetUnits : ℕ := 32
  evidenceFloor : ℕ := 30
  lowEvidenceFactor : ℚ := 85 / 100
  humanAuthoredPrior : ℚ := 1
  minedPrior : ℚ := 95 / 100
  selfDistilledPrior : ℚ := 80 / 100

/-- The arguments of `search`. No readable scopes, and none given, stand for all of them. -/
structure Call (W : Type*) where
  query : String
  workdir : W
  envFingerprint : List (String × String) := []
  readableScopes : List Scope := []
  suppress : Bool := false
  deriving DecidableEq

structure SkillCandidateRef where
  ref : SkillRef
  score : ℚ
  lexicalRank : Option ℕ
  vectorRank : Option ℕ
  deriving DecidableEq

structure MemoryBundle where
  skills : List SkillCandidateRef := []
  suppressed : Bool := false
  deriving DecidableEq

def isWordChar (c : Char) : Bool := ('a' ≤ c && c ≤ 'z') || ('0' ≤ c && c ≤ '9')

/-- The matches of `[a-z0-9]+(?:-[a-z0-9]+)*` from the left; `word` is the match so far, backwards. -/
def tokensFrom : List Char → List Char → List (List Char)
  | word, [] => if word = [] then [] else [word.reverse]
  | word, c :: cs =>
    if isWordChar c then tokensFrom (c :: word) cs
    else if word = [] then tokensFrom [] cs
    else if c = '-' && cs.head?.any isWordChar then tokensFrom ('-' :: word) cs
    else word.reverse :: tokensFrom [] cs

def tokenize (text : String) : List String :=
  (tokensFrom [] (Text.lower text).toList).map String.ofList

example : tokenize "Fix-CI: add --dry-run" = ["fix-ci", "add", "dry-run"] := by decide +kernel

section Pipeline
variable {W : Type*} (m : Machine W) (cfg : RetrievalConfig)

/-- The probe of a precondition, with its arguments. -/
def Precondition.request (pre : Precondition) : String × Dict :=
  match pre.kind with
  | .probe => (pre.value, pre.arguments)
  | .fileExists => ("file_exists", [("path", .str pre.value)])
  | .pathGlob => ("path_glob", [("pattern", .str pre.value)])
  | .envPresent => ("env_present", [("name", .str pre.value)])
  | .toolAvailable => ("tool_available", [("name", .str pre.value)])

/-- `DEFAULT_PROBES`, by their costs. -/
def probeCost : String → Option ℕ
  | "file_exists" => some 1
  | "path_glob" => some 2
  | "env_present" => some 1
  | "tool_available" => some 1
  | "python_module_available" => some 1
  | _ => none

/-- `evaluate_all`: nothing where a probe raises. -/
def evaluateAll (workdir : W) : ℕ → List Precondition → Option Bool
  | _, [] => some true
  | budget, pre :: preconditions =>
    match probeCost pre.request.1 with
    | none => some false
    | some cost =>
      if budget < cost then some false
      else match m.probe pre.request.1 pre.request.2 workdir with
        | .passed => evaluateAll workdir (budget - cost) preconditions
        | .failed => some false
        | .raised => none

def environmentFingerprintMatches (skill run : List (String × String)) : Bool :=
  skill.all fun (tool, version) => (run.lookup tool).all (· = version)

def Call.scopes (call : Call W) : List Scope :=
  if call.readableScopes = [] then [.run, .project, .org, .global] else call.readableScopes

/-- `_filter_row`: whether the row is kept. -/
def filterRow (call : Call W) (row : Row) : Option Bool :=
  if row.lifecycle ≠ .approved then some false
  else if !row.active then some false
  else if row.scope ∉ call.scopes then some false
  else if !environmentFingerprintMatches row.toolFingerprint call.envFingerprint then some false
  else evaluateAll m call.workdir cfg.probeBudgetUnits row.preconditions

def Index.getRow (index : Index) (ref : SkillRef) : Option Row :=
  index.rows.find? fun row => row.ref = ref

def lexicalTopK (index : Index) (query : String) : List SkillRef :=
  let tokens := tokenize query
  if tokens = [] then []
  else (m.bm25 (index.rows.map fun row => (row.ref, row.document)) (tokens.take 32)).take
    cfg.lexicalTopK

/-- Highest score first; equal scores keep their order. -/
def byScore {α : Type*} (score : α → ℚ) (xs : List α) : List α :=
  xs.mergeSort fun a b => score b ≤ score a

def vectorTopK (index : Index) (query : String) : List SkillRef :=
  ((byScore (fun row => m.cosine query row.document) index.rows).map Row.ref).take cfg.vectorTopK

/-- The scores of `reciprocal_rank_fusion`, in the order of their first appearance. -/
def rrfScores (ranked : List (List SkillRef)) : Table SkillRef ℚ :=
  ranked.foldl (fun scores refs =>
    refs.zipIdx.foldl (fun scores (ref, i) =>
      let share : ℚ := 1 / (cfg.rrfK + (i + 1))
      scores.upsert ref share (· + share)) scores) .empty

/-- The candidates of a query. -/
def merged (index : Index) (query : String) : List (SkillRef × ℚ) :=
  byScore Prod.snd
    (rrfScores cfg [lexicalTopK m cfg index query, vectorTopK m cfg index query]).rows

structure Scored where
  row : Row
  score : ℚ

/-- `_filter_merged` -/
def filterMerged (index : Index) (call : Call W) : List (SkillRef × ℚ) → Option (List Scored)
  | [] => some []
  | (ref, rrf) :: candidates =>
    match index.getRow ref with
    | none => filterMerged index call candidates
    | some row =>
      match filterRow m cfg call row with
      | none => none
      | some false => filterMerged index call candidates
      | some true => (filterMerged index call candidates).map (⟨row, rrf⟩ :: ·)

def lexicalOverlap (query document : String) : ℚ :=
  let q := (tokenize query).dedup
  if q = [] then 0 else (q.filter fun t => t ∈ tokenize document).length / q.length

def idTokensInQuery (skillId query : String) : Bool :=
  let idTokens := ((skillId.toList.splitOn '-').map String.ofList).dedup
  max 2 ((idTokens.length + 1) / 2) ≤ (idTokens.filter fun t => t ∈ tokenize query).length

def rerankScore (query : String) (found : Scored) : ℚ :=
  let idBoost : ℚ := if idTokensInQuery found.row.ref.skillId query then 15 / 100 else 0
  35 / 100 * m.cosine query found.row.document +
    50 / 100 * lexicalOverlap query found.row.document + idBoost +
    15 / 100 * min (found.score * 20) 1

/-- `_rerank` -/
def rerank (query : String) (survivors : List Scored) : List Scored :=
  let top := (survivors.take cfg.rerankTopN).map fun found =>
    { found with score := rerankScore m query found }
  let tail := (survivors.drop cfg.rerankTopN).map fun found =>
    { found with score := min (found.score * 20) cfg.minScore }
  byScore Scored.score (top ++ tail)

/-- `_apply_score_floor` -/
def scoreFloor (reranked : List Scored) : List Scored :=
  reranked.filter fun found => !(decide (found.score < cfg.minScore))

/-- `_demote`, at a time. -/
def demote (now : ℤ) (found : Scored) : ℚ :=
  let score := if found.row.applications < cfg.evidenceFloor then
    found.score * cfg.lowEvidenceFactor else found.score
  let score := match found.row.curation with
    | .humanAuthored => score * cfg.humanAuthoredPrior
    | .minedFromHumanArtifact => score * cfg.minedPrior
    | _ => score * cfg.selfDistilledPrior
  match found.row.lastUsedAt with
  | none => score
  | some lastUsed => if 0 < now - lastUsed then score * m.decay (now - lastUsed) else score

/-- The place of a reference in a ranked list, from one. -/
def rankIn (refs : List SkillRef) (ref : SkillRef) : Option ℕ :=
  if ref ∈ refs then some (refs.idxOf ref + 1) else none

/-- What stands behind the floor, before time comes in. -/
def floored (index : Index) (call : Call W) : Option (List Scored) :=
  (filterMerged m cfg index call (merged m cfg index call.query)).map fun survivors =>
    scoreFloor cfg (rerank m cfg call.query survivors)

/-- `_apply_demotions` and `_top_candidates` -/
def topCandidates (index : Index) (query : String) (now : ℤ) (found : List Scored) :
    List SkillCandidateRef :=
  let lexical := lexicalTopK m cfg index query
  let vector := vectorTopK m cfg index query
  ((byScore (demote m cfg now) found).take cfg.maxCandidates).map fun found =>
    { ref := found.row.ref, score := m.round (demote m cfg now found),
      lexicalRank := rankIn lexical found.row.ref, vectorRank := rankIn vector found.row.ref }

/-- `search` without a result cache; nothing where a probe raises. -/
def uncached (index : Index) (call : Call W) (now : ℤ) : Option MemoryBundle :=
  if call.suppress then some { suppressed := true }
  else (floored m cfg index call).map fun found =>
    { skills := topCandidates m cfg index call.query now found }

end Pipeline

end Recertia.Retrieval
