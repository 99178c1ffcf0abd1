import Recertia.Auth.OidcLogin
import Recertia.Queue.RunQueue
import Mathlib.Data.List.Dedup
import Mathlib.Data.List.Sort

/-! The API keys (`api/auth.py`): how they are issued, presented, revoked and carried over a change
of pepper, and what the policy decision point (`app/authz.py`) lets their principals do. -/
namespace Recertia.ApiKeys

open Recertia.Auth (splitAt)
open Recertia.Queue (tenantId)
open Transition

/-! ### Principals -/

inductive PrincipalKind
  | apiKey
  | consoleSession
  | localOperator
  | executor
  | system
  deriving DecidableEq, Repr

/-- A set of scopes or roles is the list of its members. -/
structure Principal where
  subject : String
  kind : PrincipalKind
  tenant : String
  scopes : List String
  roles : List String
  deriving DecidableEq, Repr

def Principal.hasScope (principal : Principal) (scope : String) : Bool :=
  if scope ∈ principal.scopes ∨ "platform_admin" ∈ principal.scopes then true
  -- Tenant admin satisfies the scopes of its tenant.
  else decide (scope ≠ "platform_admin" ∧ "admin" ∈ principal.scopes)

def Principal.hasRole (principal : Principal) (role : String) : Bool :=
  if role ∈ principal.roles ∨ "platform_admin" ∈ principal.roles then true
  else decide (role ∈ ["operator", "reviewer", "admin"] ∧ "admin" ∈ principal.roles)

/-- `from_api_key` -/
def Principal.fromApiKey (keyId tenant : String) (scopes : List String) : Principal where
  subject := keyId
  kind := .apiKey
  tenant := tenant
  scopes := scopes
  roles := (if "admin" ∈ scopes then ["admin"] else []) ++
    if "platform_admin" ∈ scopes then ["platform_admin"] else []

/-! ### The store -/

inductive KeyError
  | invalidTenantId
  | noScope
  | unknownScopes (unknown : List String)
  | malformedScopes
  /-- the key id is taken -/
  | integrity
  deriving DecidableEq, Repr

def allowedScopes : List String :=
  ["runs", "blobs", "metrics", "admin", "exec", "promote", "jobs", "platform_admin"]

def validateTenantId (value : String) : Except KeyError String :=
  match tenantId value with
  | none => .error .invalidTenantId
  | some tenant => .ok tenant

/-- `sorted` of a set -/
def sorted (scopes : List String) : List String := scopes.dedup.insertionSort (· ≤ ·)

def validateScopes (scopes : List String) : Except KeyError (List String) :=
  if scopes = [] then .error .noScope
  else
    let unknown := scopes.filter (· ∉ allowedScopes)
    if unknown ≠ [] then .error (.unknownScopes (sorted unknown))
    else if scopes.any fun scope =>
        ',' ∈ scope.toList || scope ≠ Text.strip scope || scope = "" then
      .error .malformedScopes
    else .ok scopes

/-- The hash functions: HMAC-SHA256 of a text, the key that HKDF-SHA256 derives for an info text,
and PBKDF2 of a text with a salt. -/
structure Hashes (Key Digest : Type*) where
  hmac : Key → String → Digest
  hkdf : Key → String → Key
  pbkdf2 : String → List UInt8 → Digest

inductive HashAlg
  | pbkdf2Sha256
  | hmacSha256
  deriving DecidableEq, Repr

structure ApiKeyRow (Digest : Type*) where
  tenantId : String
  scopes : String
  salt : List UInt8
  keyHash : Digest
  revoked : Bool := false
  hashAlg : HashAlg
  pepperId : String
  deriving DecidableEq

inductive AuditAction
  | issued
  | authenticated
  | authenticationFailed
  | revoked
  deriving DecidableEq, Repr

structure AuditRow where
  time : ℚ
  action : AuditAction
  keyId : Option String
  deriving DecidableEq

/-- The database, and of the process its peppers and the failures that its limiter has kept. -/
structure KeyStore (Key Digest : Type*) where
  bindTenant : Bool
  pepper : Key
  previousPepper : Option Key
  maxFailures : ℕ := 20
  failures : String → List ℚ := fun _ => []
  keys : Table String (ApiKeyRow Digest) := .empty
  /-- the newest row first -/
  audit : List AuditRow := []

variable {Key Digest : Type*} [DecidableEq Digest] (h : Hashes Key Digest)

def currentPepper : String := "v1"

/-- `_mac_key` -/
def macKey (tenant pepperId : String) (pepper : Key) (s : KeyStore Key Digest) : Key :=
  if s.bindTenant then h.hkdf pepper (tenant ++ "|" ++ pepperId) else pepper

/-- `_hmac` -/
def hmac (secret tenant pepperId : String) (pepper : Key) (s : KeyStore Key Digest) : Digest :=
  h.hmac (macKey h tenant pepperId pepper s) secret

/-! ### The limiter -/

def bucketOf (clientIp : String) (keyId : Option String) : String :=
  clientIp ++ "|" ++ match keyId with
    | none => "anon"
    | some keyId => if keyId = "" then "anon" else keyId

/-- `_AuthRateLimiter.check` -/
def checkLimit (now : ℚ) (bucket : String) (s : KeyStore Key Digest) :
    KeyStore Key Digest × Bool :=
  let stamps := (s.failures bucket).filter fun t => now - t < 60
  ({ s with failures := Function.update s.failures bucket stamps },
    decide (stamps.length < s.maxFailures))

def recordFailure (now : ℚ) (bucket : String) (s : KeyStore Key Digest) : KeyStore Key Digest :=
  { s with failures := Function.update s.failures bucket (s.failures bucket ++ [now]) }

/-! ### The audit rows -/

def auditCap : ℕ := 10000

def isAuthenticated (keyId : String) (row : AuditRow) : Bool :=
  row.action = .authenticated && row.keyId = some keyId

/-- `_authenticated_recently` -/
def authenticatedRecently (wall : ℚ) (keyId : String) (s : KeyStore Key Digest) : Bool :=
  match s.audit.find? (isAuthenticated keyId) with
  | none => false
  | some row => decide (wall - row.time < 3600)

/-- `_audit` -/
def addAudit (wall : ℚ) (action : AuditAction) (keyId : Option String) (s : KeyStore Key Digest) :
    KeyStore Key Digest :=
  if action = .authenticated ∧
      keyId.any (fun keyId => keyId ≠ "" && authenticatedRecently wall keyId s) = true then s
  else { s with audit := (⟨wall, action, keyId⟩ :: s.audit).take auditCap }

/-! ### Issuing, presenting and revoking -/

def isHex (c : Char) : Bool := c.isDigit || ('a' ≤ c && c ≤ 'f')

def isTokenChar (c : Char) : Bool := c.isAlphanum || c = '_' || c = '-'

/-- The key id of `^rec_(key_[0-9a-f]+)\.([A-Za-z0-9_-]+)$` -/
def structuredKeyId (secret : String) : Option String :=
  (secret.toList.dropPrefix? "rec_key_".toList).bind fun rest =>
    match rest.takeWhile isHex, rest.dropWhile isHex with
    | c :: cs, '.' :: token =>
      if token ≠ [] ∧ token.all isTokenChar = true then some ("key_" ++ String.ofList (c :: cs))
      else none
    | _, _ => none

/-- What `secrets` draws for a key. -/
structure Draw where
  hex : String
  token : String
  hex_nonempty : hex ≠ ""
  hex_all : hex.toList.all isHex = true
  token_nonempty : token ≠ ""
  token_all : token.toList.all isTokenChar = true

def Draw.keyId (draw : Draw) : String := "key_" ++ draw.hex

def Draw.secret (draw : Draw) : String := "rec_" ++ draw.keyId ++ "." ++ draw.token

structure IssuedApiKey where
  keyId : String
  secret : String
  tenantId : String
  scopes : List String
  deriving DecidableEq, Repr

def issue (draw : Draw) (wall : ℚ) (tenant : String) (scopes : List String)
    (s : KeyStore Key Digest) : KeyStore Key Digest × Except KeyError IssuedApiKey :=
  match validateTenantId tenant with
  | .error e => (s, .error e)
  | .ok tenant =>
    match validateScopes scopes with
    | .error e => (s, .error e)
    | .ok scopes =>
      let row : ApiKeyRow Digest :=
        { tenantId := tenant, scopes := ",".intercalate (sorted scopes), salt := []
          keyHash := hmac h draw.secret tenant currentPepper s.pepper s
          hashAlg := .hmacSha256, pepperId := currentPepper }
      match s.keys.insert draw.keyId row with
      | none => (s, .error .integrity)
      | some keys =>
        (addAudit wall .issued (some draw.keyId) { s with keys },
          .ok ⟨draw.keyId, draw.secret, tenant, scopes⟩)

/-- `_rehash` -/
def rehash (keyId tenant secret : String) (s : KeyStore Key Digest) : KeyStore Key Digest :=
  { s with
    keys := s.keys.update (fun k _ => k = keyId) fun row =>
      { row with
        keyHash := hmac h secret tenant currentPepper s.pepper s
        salt := []
        hashAlg := .hmacSha256
        pepperId := currentPepper } }

/-- `_hash_matches` -/
def hashMatches (keyId secret : String) (row : ApiKeyRow Digest) (s : KeyStore Key Digest) :
    KeyStore Key Digest × Bool :=
  if row.hashAlg = .pbkdf2Sha256 then
    if h.pbkdf2 secret row.salt ≠ row.keyHash then (s, false)
    else (rehash h keyId row.tenantId secret s, true)
  else
    let pepperId := if row.pepperId = "" then "legacy" else row.pepperId
    if hmac h secret row.tenantId pepperId s.pepper s = row.keyHash then
      (if pepperId ≠ currentPepper then rehash h keyId row.tenantId secret s else s, true)
    else
      match s.previousPepper with
      | none => (s, false)
      | some previous =>
        if hmac h secret row.tenantId pepperId previous s = row.keyHash then
          (rehash h keyId row.tenantId secret s, true)
        else (s, false)

/-- `_principal_from_row` -/
def principalFromRow (wall : ℚ) (keyId secret : String) (row : ApiKeyRow Digest)
    (s : KeyStore Key Digest) : KeyStore Key Digest × Option Principal :=
  match hashMatches h keyId secret row s with
  | (s, false) => (s, none)
  | (s, true) =>
    match validateTenantId row.tenantId, validateScopes (splitAt ',' row.scopes) with
    | .ok tenant, .ok scopes =>
      (addAudit wall .authenticated (some keyId) s, some (.fromApiKey keyId tenant scopes))
    | _, _ => (addAudit wall .authenticationFailed (some keyId) s, none)

/-- A presented secret that the limiter has let through. -/
structure Attempt where
  secret : String
  clientIp : String
  deriving DecidableEq, Repr

def Attempt.keyId (a : Attempt) : Option String := structuredKeyId a.secret

def Attempt.bucket (a : Attempt) : String := bucketOf a.clientIp a.keyId

/-- `authenticate`, up to what the limiter says -/
def present (now : ℚ) (secret clientIp : String) (s : KeyStore Key Digest) :
    KeyStore Key Digest × Option Attempt :=
  if secret = "" then (s, none)
  else
    let attempt : Attempt := ⟨secret, clientIp⟩
    match checkLimit now attempt.bucket s with
    | (s, true) => (s, some attempt)
    | (s, false) => (s, none)

/-- The part of `authenticate` that reads the keys: an unstructured secret names none. -/
def lookUp (wall : ℚ) (a : Attempt) (s : KeyStore Key Digest) :
    KeyStore Key Digest × Option Principal :=
  match a.keyId with
  | none => (s, none)
  | some keyId =>
    match (s.keys.get? keyId).filter (!·.revoked) with
    | none => (s, none)
    | some row => principalFromRow h wall keyId a.secret row s

/-- `authenticate`, behind the limiter -/
def answer (now wall : ℚ) (a : Attempt) (s : KeyStore Key Digest) :
    KeyStore Key Digest × Option Principal :=
  match lookUp h wall a s with
  | (s, some principal) => (s, some principal)
  | (s, none) =>
    (addAudit wall .authenticationFailed a.keyId (recordFailure now a.bucket s), none)

def revoke (wall : ℚ) (keyId : String) (s : KeyStore Key Digest) : KeyStore Key Digest × Bool :=
  if (s.keys.get? keyId).any (!·.revoked) then
    (addAudit wall .revoked (some keyId)
      { s with
        keys := s.keys.update (fun k row => k = keyId && !row.revoked)
          fun row => { row with revoked := true } }, true)
  else (s, false)

/-! ### The process -/

/-- The store, the monotonic clock, and the attempts that are under way. -/
structure Api (Key Digest : Type*) where
  store : KeyStore Key Digest
  clock : ℚ := 0
  attempts : List Attempt := []

inductive KeyLabel (Key : Type*)
  | issue (draw : Draw) (wall : ℚ) (tenant : String) (scopes : List String)
  | present (now : ℚ) (secret clientIp : String)
  | answer (now wall : ℚ) (a : Attempt)
  | revoke (wall : ℚ) (keyId : String)
  /-- A new process on the same pepper files. -/
  | restart (now : ℚ)
  /-- A new process on files that hold a new pepper, and the old one as the previous one. -/
  | rotate (now : ℚ) (pepper : Key)

/-- A process that has just opened the database. -/
def reopened (now : ℚ) (pepper : Key) (previous : Option Key) (p : Api Key Digest) :
    Api Key Digest where
  store := { p.store with pepper := pepper, previousPepper := previous, failures := fun _ => [] }
  clock := now

def keyStep (p : Api Key Digest) : KeyLabel Key → Option (Api Key Digest)
  | .issue draw wall tenant scopes =>
    some { p with store := (issue h draw wall tenant scopes p.store).1 }
  | .present now secret clientIp =>
    if now < p.clock then none
    else
      let (store, attempt) := present now secret clientIp p.store
      some { store, clock := now, attempts := attempt.toList ++ p.attempts }
  | .answer now wall a =>
    if now < p.clock ∨ a ∉ p.attempts then none
    else
      some
        { store := (answer h now wall a p.store).1, clock := now
          attempts := p.attempts.erase a }
  | .revoke wall keyId => some { p with store := (revoke wall keyId p.store).1 }
  | .restart now => some (reopened now p.store.pepper p.store.previousPepper p)
  | .rotate now pepper => some (reopened now pepper (some p.store.pepper) p)

def keySystem : System (Api Key Digest) (KeyLabel Key) where
  step := keyStep h

variable {h}

/-! ### What the calls leave alone -/

section Frame

variable (wall : ℚ) (action : AuditAction) (keyId : Option String) (s : KeyStore Key Digest)

omit [DecidableEq Digest] in
/-- A row of the audit changes nothing else. -/
theorem addAudit_eq : ∃ audit, addAudit wall action keyId s = { s with audit } := by
  unfold addAudit
  split
  · exact ⟨s.audit, rfl⟩
  · exact ⟨_, rfl⟩

omit [DecidableEq Digest] in
@[simp] theorem keys_addAudit : (addAudit wall action keyId s).keys = s.keys := by
  obtain ⟨audit, haudit⟩ := addAudit_eq wall action keyId s
  rw [haudit]

omit [DecidableEq Digest] in
@[simp] theorem failures_addAudit : (addAudit wall action keyId s).failures = s.failures := by
  obtain ⟨audit, haudit⟩ := addAudit_eq wall action keyId s
  rw [haudit]

end Frame

/-! ### Scopes as text -/

theorem mem_sorted {scope : String} {scopes : List String} :
    scope ∈ sorted scopes ↔ scope ∈ scopes := by
  unfold sorted
  rw [List.mem_insertionSort, List.mem_dedup]

theorem sorted_ne_nil {scopes : List String} (h : scopes ≠ []) : sorted scopes ≠ [] := by
  obtain ⟨scope, hscope⟩ := List.exists_mem_of_ne_nil scopes h
  exact List.ne_nil_of_mem (mem_sorted.mpr hscope)

theorem validateScopes_ok {scopes scopes' : List String} (h : validateScopes scopes = .ok scopes') :
    scopes' = scopes ∧ scopes ≠ [] ∧ ∀ scope ∈ scopes, scope ∈ allowedScopes := by
  unfold validateScopes at h
  dsimp only at h
  split at h
  · cases h
  · rename_i hnonempty
    split at h
    · cases h
    · rename_i hknown
      split at h
      · cases h
      · cases h
        refine ⟨rfl, hnonempty, fun scope hscope => ?_⟩
        have hnone := List.filter_eq_nil_iff.mp (not_not.mp hknown) scope hscope
        simpa using hnone

theorem allowedScopes_plain : ∀ scope ∈ allowedScopes,
    ',' ∉ scope.toList ∧ scope = Text.strip scope ∧ scope ≠ "" := by decide +kernel

theorem validateScopes_eq_ok {scopes : List String} (hnonempty : scopes ≠ [])
    (hknown : ∀ scope ∈ scopes, scope ∈ allowedScopes) : validateScopes scopes = .ok scopes := by
  unfold validateScopes
  have hunknown : scopes.filter (· ∉ allowedScopes) = [] := by
    rw [List.filter_eq_nil_iff]
    intro scope hscope
    simpa using hknown scope hscope
  have hplain : ¬ (scopes.any fun scope =>
      ',' ∈ scope.toList || scope ≠ Text.strip scope || scope = "") = true := by
    rw [List.any_eq_true]
    intro hbad
    obtain ⟨scope, hscope, hbad⟩ := hbad
    obtain ⟨hcomma, hstrip, hne⟩ := allowedScopes_plain scope (hknown scope hscope)
    simp [hcomma, ← hstrip, hne] at hbad
  dsimp only
  rw [if_neg hnonempty, hunknown, if_neg (by simp), if_neg hplain]

/-- The scopes of a row are read back as they were written. -/
theorem splitAt_intercalate {words : List String} (hnonempty : words ≠ [])
    (hplain : ∀ word ∈ words, ',' ∉ word.toList) :
    splitAt ',' (",".intercalate words) = words := by
  unfold splitAt
  have hsplit : ([','].intercalate (words.map String.toList)).splitOn ',' =
      words.map String.toList := by
    apply List.splitOn_intercalate
    · intro chars hchars
      obtain ⟨word, hword, rfl⟩ := List.mem_map.mp hchars
      exact hplain word hword
    · simpa using hnonempty
  rw [String.toList_intercalate]
  show (([','].intercalate (words.map String.toList)).splitOn ',').map String.ofList = words
  rw [hsplit, List.map_map]
  simp

theorem scopes_roundTrip {scopes scopes' : List String} (h : validateScopes scopes = .ok scopes') :
    splitAt ',' (",".intercalate (sorted scopes)) = sorted scopes ∧
      validateScopes (sorted scopes) = .ok (sorted scopes) := by
  obtain ⟨-, hnonempty, hknown⟩ := validateScopes_ok h
  have hknown' : ∀ scope ∈ sorted scopes, scope ∈ allowedScopes :=
    fun scope hscope => hknown scope (mem_sorted.mp hscope)
  exact ⟨splitAt_intercalate (sorted_ne_nil hnonempty)
    (fun scope hscope => (allowedScopes_plain scope (hknown' scope hscope)).1),
    validateScopes_eq_ok (sorted_ne_nil hnonempty) hknown'⟩

/-! ### What each call does to the keys -/

/-- A secret names its key. -/
theorem Draw.structuredKeyId_secret (draw : Draw) :
    structuredKeyId draw.secret = some draw.keyId := by
  have hchars : draw.secret.toList =
      "rec_key_".toList ++ (draw.hex.toList ++ '.' :: draw.token.toList) := by
    simp [Draw.secret, Draw.keyId]
  obtain ⟨c, cs, hhex⟩ := List.exists_cons_of_ne_nil
    (fun hnil => draw.hex_nonempty (String.toList_eq_nil_iff.mp hnil))
  have htoken : draw.token.toList ≠ [] :=
    fun hnil => draw.token_nonempty (String.toList_eq_nil_iff.mp hnil)
  have hall : ∀ d ∈ draw.hex.toList, isHex d = true := List.all_eq_true.mp draw.hex_all
  unfold structuredKeyId
  rw [hchars, List.dropPrefix?_append_of_beq _ (beq_self_eq_true _), Option.bind_some,
    List.takeWhile_append_of_pos hall, List.dropWhile_append_of_pos hall,
    List.takeWhile_cons_of_neg (by decide), List.dropWhile_cons_of_neg (by decide),
    List.append_nil, hhex]
  show (if draw.token.toList ≠ [] ∧ draw.token.toList.all isTokenChar = true then
    some ("key_" ++ String.ofList (c :: cs)) else none) = some draw.keyId
  rw [if_pos ⟨htoken, draw.token_all⟩, ← hhex, String.ofList_toList]
  rfl


/-- The row's hash is one of the secret. -/
def HashOf (h : Hashes Key Digest) (secret : String) (row : ApiKeyRow Digest) : Prop :=
  row.hashAlg = .pbkdf2Sha256 ∧ h.pbkdf2 secret row.salt = row.keyHash ∨
  row.hashAlg = .hmacSha256 ∧ ∃ key, h.hmac key secret = row.keyHash

/-- Distinct structured secrets have distinct hashes. -/
structure CollisionFree (h : Hashes Key Digest) : Prop where
  hmac : ∀ {key key' secret secret'}, structuredKeyId secret ≠ none →
    structuredKeyId secret' ≠ none → h.hmac key secret = h.hmac key' secret' → secret = secret'
  pbkdf2 : ∀ {secret secret' salt}, structuredKeyId secret ≠ none →
    structuredKeyId secret' ≠ none → h.pbkdf2 secret salt = h.pbkdf2 secret' salt →
    secret = secret'

omit [DecidableEq Digest] in
theorem HashOf.unique (hfree : CollisionFree h) {secret secret' : String} {row : ApiKeyRow Digest}
    (hash : HashOf h secret row) (hash' : HashOf h secret' row)
    (hsecret : structuredKeyId secret ≠ none) (hsecret' : structuredKeyId secret' ≠ none) :
    secret = secret' := by
  rcases hash with ⟨halg, heq⟩ | ⟨halg, key, heq⟩
  · rcases hash' with ⟨-, heq'⟩ | ⟨halg', -⟩
    · exact hfree.pbkdf2 hsecret hsecret' (heq.trans heq'.symm)
    · rw [halg] at halg'
      cases halg'
  · rcases hash' with ⟨halg', -⟩ | ⟨-, key', heq'⟩
    · rw [halg] at halg'
      cases halg'
    · exact hfree.hmac hsecret hsecret' (heq.trans heq'.symm)

/-- A row hashed anew, under the pepper of the process. -/
def anew (h : Hashes Key Digest) (secret : String) (row : ApiKeyRow Digest)
    (s : KeyStore Key Digest) : ApiKeyRow Digest :=
  { row with
    keyHash := hmac h secret row.tenantId currentPepper s.pepper s
    salt := []
    hashAlg := .hmacSha256
    pepperId := currentPepper }

omit [DecidableEq Digest] in
theorem get?_rehash_self {keyId secret : String} {row : ApiKeyRow Digest} {s : KeyStore Key Digest}
    (hrow : s.keys.get? keyId = some row) :
    (rehash h keyId row.tenantId secret s).keys.get? keyId = some (anew h secret row s) := by
  unfold rehash
  rw [Table.get?_update, hrow, Option.map_some, if_pos (by simp)]
  rfl

omit [DecidableEq Digest] in
theorem get?_rehash_other (keyId tenant secret : String) (s : KeyStore Key Digest) {k : String}
    (hk : k ≠ keyId) : (rehash h keyId tenant secret s).keys.get? k = s.keys.get? k := by
  unfold rehash
  rw [Table.get?_update]
  simp [hk]

/-- A row that matches may be hashed anew. -/
theorem hashMatches_cases (h : Hashes Key Digest) (keyId secret : String)
    (row : ApiKeyRow Digest) (s : KeyStore Key Digest) :
    hashMatches h keyId secret row s = (s, false) ∨
    HashOf h secret row ∧ ∃ s', (s' = s ∨ s' = rehash h keyId row.tenantId secret s) ∧
      hashMatches h keyId secret row s = (s', true) := by
  unfold hashMatches
  split
  · rename_i halg
    split
    · exact .inl rfl
    · rename_i hash
      exact .inr ⟨.inl ⟨halg, not_not.mp hash⟩, _, .inr rfl, rfl⟩
  · rename_i halg
    have halg' : row.hashAlg = .hmacSha256 := by
      cases hrow : row.hashAlg with
      | pbkdf2Sha256 => exact absurd hrow halg
      | hmacSha256 => rfl
    dsimp only
    generalize (if row.pepperId = "" then "legacy" else row.pepperId) = pepperId
    split
    · rename_i hash
      refine .inr ⟨.inr ⟨halg', _, hash⟩, _, ?_, rfl⟩
      split
      · exact .inr rfl
      · exact .inl rfl
    · split
      · exact .inl rfl
      · split
        · rename_i hash
          exact .inr ⟨.inr ⟨halg', _, hash⟩, _, .inr rfl, rfl⟩
        · exact .inl rfl

/-- The row of the key that an attempt names, and the store behind the comparison. -/
structure Matched (h : Hashes Key Digest) (a : Attempt) (s s' : KeyStore Key Digest)
    (keyId : String) (row : ApiKeyRow Digest) : Prop where
  named : a.keyId = some keyId
  there : s.keys.get? keyId = some row
  live : row.revoked = false
  hash : HashOf h a.secret row
  store : s' = s ∨ s' = rehash h keyId row.tenantId a.secret s

/-- Everything that an answer can be. -/
inductive Answered (h : Hashes Key Digest) (now wall : ℚ) (a : Attempt) (s : KeyStore Key Digest) :
    KeyStore Key Digest × Option Principal → Prop
  | unmatched : Answered h now wall a s
      (addAudit wall .authenticationFailed a.keyId (recordFailure now a.bucket s), none)
  | malformed {s' : KeyStore Key Digest} {keyId : String} {row : ApiKeyRow Digest}
    (found : Matched h a s s' keyId row) : Answered h now wall a s
      (addAudit wall .authenticationFailed a.keyId (recordFailure now a.bucket
        (addAudit wall .authenticationFailed (some keyId) s')), none)
  | accepted {s' : KeyStore Key Digest} {keyId : String} {row : ApiKeyRow Digest} {tenant : String}
    {scopes : List String} (found : Matched h a s s' keyId row)
    (htenant : validateTenantId row.tenantId = .ok tenant)
    (hscopes : validateScopes (splitAt ',' row.scopes) = .ok scopes) : Answered h now wall a s
      (addAudit wall .authenticated (some keyId) s', some (.fromApiKey keyId tenant scopes))

theorem answer_cases (h : Hashes Key Digest) (now wall : ℚ) (a : Attempt)
    (s : KeyStore Key Digest) : Answered h now wall a s (answer h now wall a s) := by
  have hunmatched : Answered h now wall a s
      (addAudit wall .authenticationFailed a.keyId (recordFailure now a.bucket s), none) :=
    .unmatched
  have hmalformed : ∀ {s' keyId row}, Matched h a s s' keyId row → Answered h now wall a s
      (addAudit wall .authenticationFailed a.keyId (recordFailure now a.bucket
        (addAudit wall .authenticationFailed (some keyId) s')), none) := fun found =>
    .malformed found
  unfold answer lookUp
  cases hnamed : a.keyId with
  | none =>
    rw [hnamed] at hunmatched
    exact hunmatched
  | some keyId =>
    rw [hnamed] at hunmatched hmalformed
    dsimp only
    cases hfound : (s.keys.get? keyId).filter (!·.revoked) with
    | none => exact hunmatched
    | some row =>
      obtain ⟨hrow, hlive⟩ := Option.filter_eq_some_iff.mp hfound
      dsimp only
      unfold principalFromRow
      rcases hashMatches_cases h keyId a.secret row s with hno | ⟨hash, s', hs', hyes⟩
      · rw [hno]
        exact hunmatched
      · have found : Matched h a s s' keyId row :=
          ⟨hnamed, hrow, by simpa using hlive, hash, hs'⟩
        rw [hyes]
        dsimp only
        cases htenant : validateTenantId row.tenantId with
        | error e => exact hmalformed found
        | ok tenant =>
          cases hscopes : validateScopes (splitAt ',' row.scopes) with
          | error e => exact hmalformed found
          | ok scopes => exact .accepted found htenant hscopes

omit [DecidableEq Digest] in
/-- No key changes but by being hashed anew. -/
theorem Answered.keys {now wall : ℚ} {a : Attempt} {s : KeyStore Key Digest}
    {result : KeyStore Key Digest × Option Principal} (hanswer : Answered h now wall a s result) :
    result.1.keys = s.keys ∨
    ∃ keyId row, a.keyId = some keyId ∧ s.keys.get? keyId = some row ∧ HashOf h a.secret row ∧
      result.1.keys = (rehash h keyId row.tenantId a.secret s).keys := by
  have hmatched : ∀ {s' keyId row}, Matched h a s s' keyId row → s'.keys = s.keys ∨
      ∃ keyId row, a.keyId = some keyId ∧ s.keys.get? keyId = some row ∧ HashOf h a.secret row ∧
        s'.keys = (rehash h keyId row.tenantId a.secret s).keys := by
    intro s' keyId row found
    rcases found.store with heq | heq
    · exact .inl (congrArg _ heq)
    · exact .inr ⟨keyId, row, found.named, found.there, found.hash, congrArg _ heq⟩
  cases hanswer with
  | unmatched => exact .inl (keys_addAudit ..)
  | malformed found =>
    rw [keys_addAudit]
    show (addAudit wall _ _ _).keys = _ ∨ _
    rw [keys_addAudit]
    exact hmatched found
  | accepted found =>
    rw [keys_addAudit]
    exact hmatched found

theorem validateTenantId_ok {tenant tenant' : String} (h : validateTenantId tenant = .ok tenant') :
    tenant' = tenant := by
  unfold validateTenantId tenantId at h
  split at h
  · cases h
  · rename_i found hfound
    cases h
    split at hfound
    · cases hfound
    · split at hfound
      · exact (Option.some.inj hfound).symm
      · cases hfound

omit [DecidableEq Digest] in
/-- A refused issue changes nothing; one that is not adds the row of a new key. -/
theorem issue_cases (h : Hashes Key Digest) (draw : Draw) (wall : ℚ) (tenant : String)
    (scopes : List String) (s : KeyStore Key Digest) :
    (∃ e, issue h draw wall tenant scopes s = (s, .error e)) ∨
    ∃ keys row, s.keys.insert draw.keyId row = some keys ∧
      validateTenantId tenant = .ok tenant ∧ validateScopes scopes = .ok scopes ∧
      row = { tenantId := tenant, scopes := ",".intercalate (sorted scopes), salt := []
              keyHash := hmac h draw.secret tenant currentPepper s.pepper s
              hashAlg := .hmacSha256, pepperId := currentPepper } ∧
      issue h draw wall tenant scopes s = (addAudit wall .issued (some draw.keyId) { s with keys },
        .ok ⟨draw.keyId, draw.secret, tenant, scopes⟩) := by
  unfold issue
  cases htenant : validateTenantId tenant with
  | error e => exact .inl ⟨e, rfl⟩
  | ok tenant' =>
    obtain rfl := validateTenantId_ok htenant
    cases hscopes : validateScopes scopes with
    | error e => exact .inl ⟨e, rfl⟩
    | ok scopes' =>
      obtain ⟨rfl, -, -⟩ := validateScopes_ok hscopes
      dsimp only
      cases hinsert : s.keys.insert draw.keyId _ with
      | none => exact .inl ⟨.integrity, rfl⟩
      | some keys => exact .inr ⟨keys, _, hinsert, rfl, rfl, rfl, rfl⟩

omit [DecidableEq Digest] in
theorem revoke_cases (wall : ℚ) (keyId : String) (s : KeyStore Key Digest) :
    revoke wall keyId s = (s, false) ∨
    (∃ row, s.keys.get? keyId = some row) ∧ (revoke wall keyId s).2 = true ∧
      ∀ k, (revoke wall keyId s).1.keys.get? k = (s.keys.get? k).map fun row =>
        if k = keyId then { row with revoked := true } else row := by
  unfold revoke
  split
  · rename_i hlive
    obtain ⟨row, hrow, hlive⟩ := Option.any_eq_true _ _ |>.mp hlive
    refine .inr ⟨⟨row, hrow⟩, rfl, fun k => ?_⟩
    rw [keys_addAudit, Table.get?_update]
    by_cases hk : k = keyId
    · have hlive' : row.revoked = false := by simpa using hlive
      rw [hk, hrow]
      simp [hlive']
    · simp [hk]
  · exact .inl rfl

omit [DecidableEq Digest] in
/-- What a presented secret does to the failures of a bucket, and when it is let through. -/
theorem present_cases (now : ℚ) (secret clientIp : String) (s : KeyStore Key Digest) :
    present now secret clientIp s = (s, none) ∨
    ∃ bucket kept, kept = (s.failures bucket).filter (fun t => now - t < 60) ∧
      (present now secret clientIp s).1 =
        { s with failures := Function.update s.failures bucket kept } ∧
      ∀ a, (present now secret clientIp s).2 = some a →
        a.bucket = bucket ∧ kept.length < s.maxFailures := by
  unfold present
  split
  · exact .inl rfl
  · right
    refine ⟨Attempt.bucket ⟨secret, clientIp⟩, _, rfl, ?_⟩
    dsimp only
    unfold checkLimit
    dsimp only
    split
    · rename_i heq
      obtain ⟨hstore, hroom⟩ := Prod.mk.inj heq
      rw [← hstore]
      refine ⟨rfl, fun a ha => ?_⟩
      rw [← Option.some.inj ha]
      exact ⟨rfl, of_decide_eq_true hroom⟩
    · rename_i heq
      rw [← (Prod.mk.inj heq).1]
      exact ⟨rfl, fun _ hnone => by cases hnone⟩

omit [DecidableEq Digest] in
theorem present_eq (now : ℚ) (secret clientIp : String) (s : KeyStore Key Digest) :
    ∃ failures, (present now secret clientIp s).1 = { s with failures } := by
  rcases present_cases now secret clientIp s with hno | ⟨_, _, -, hstore, -⟩
  · rw [hno]
    exact ⟨s.failures, rfl⟩
  · exact ⟨_, hstore⟩

/-! ### Whom a secret is accepted as -/

/-- What is seen of a run: the keys that were issued, and those that were revoked. -/
structure Seen where
  issued : List IssuedApiKey := []
  revoked : List String := []

def seeKeys (h : Hashes Key Digest) (p : Api Key Digest) (l : KeyLabel Key) (_ : Api Key Digest)
    (seen : Seen) : Seen :=
  match l with
  | .issue draw wall tenant scopes =>
    match (issue h draw wall tenant scopes p.store).2 with
    | .ok key => { seen with issued := key :: seen.issued }
    | .error _ => seen
  | .revoke wall keyId =>
    if (revoke wall keyId p.store).2 then { seen with revoked := keyId :: seen.revoked } else seen
  | _ => seen

/-- The row is the one of the issued key, whose secret is a structured one. -/
structure RowOf (h : Hashes Key Digest) (key : IssuedApiKey) (row : ApiKeyRow Digest) : Prop where
  structured : structuredKeyId key.secret ≠ none
  tenant : row.tenantId = key.tenantId
  scopes : splitAt ',' row.scopes = sorted key.scopes
  hash : HashOf h key.secret row

/-- Every row is the one of a key that was issued, and a revoked key stays revoked. -/
structure Accounted (h : Hashes Key Digest) (s : KeyStore Key Digest) (seen : Seen) : Prop where
  rows : ∀ {k row}, s.keys.get? k = some row → ∃ key ∈ seen.issued, key.keyId = k ∧ RowOf h key row
  revoked : ∀ k ∈ seen.revoked, ∃ row, s.keys.get? k = some row ∧ row.revoked = true

omit [DecidableEq Digest] in
theorem Accounted.same {s s' : KeyStore Key Digest} {seen : Seen} (hs : Accounted h s seen)
    (hkeys : s'.keys = s.keys) : Accounted h s' seen := by
  constructor
  · intro k row hrow
    rw [hkeys] at hrow
    exact hs.rows hrow
  · intro k hk
    rw [hkeys]
    exact hs.revoked k hk

omit [DecidableEq Digest] in
theorem Accounted.issue {s : KeyStore Key Digest} {seen : Seen} (hs : Accounted h s seen)
    {draw : Draw} {tenant : String} {scopes : List String} {row : ApiKeyRow Digest}
    {keys : Table String (ApiKeyRow Digest)} (hinsert : s.keys.insert draw.keyId row = some keys)
    (hrow : RowOf h ⟨draw.keyId, draw.secret, tenant, scopes⟩ row) {s' : KeyStore Key Digest}
    (hkeys : s'.keys = keys) :
    Accounted h s'
      { seen with issued := ⟨draw.keyId, draw.secret, tenant, scopes⟩ :: seen.issued } := by
  constructor
  · intro k row' hrow'
    rw [hkeys, Table.get?_insert hinsert] at hrow'
    split at hrow'
    · rename_i hk
      cases hrow'
      exact ⟨_, List.mem_cons_self, hk.symm, hrow⟩
    · obtain ⟨key, hkey, hrest⟩ := hs.rows hrow'
      exact ⟨key, List.mem_cons_of_mem _ hkey, hrest⟩
  · intro k hk
    obtain ⟨row', hrow', hrevoked⟩ := hs.revoked k hk
    refine ⟨row', ?_, hrevoked⟩
    rw [hkeys, Table.get?_insert hinsert, if_neg, hrow']
    intro heq
    apply (Table.insert_eq_some.mp hinsert).1
    rw [← heq]
    exact Table.mem_keys.mpr ⟨row', Table.get?_eq_some.mp hrow'⟩

omit [DecidableEq Digest] in
/-- A key that is hashed anew is still the one that was issued. -/
theorem Accounted.rehash (hfree : CollisionFree h) {s : KeyStore Key Digest} {seen : Seen}
    (hs : Accounted h s seen) {keyId secret : String} {row : ApiKeyRow Digest}
    (hrow : s.keys.get? keyId = some row) (hash : HashOf h secret row)
    (hstructured : structuredKeyId secret ≠ none) {s' : KeyStore Key Digest}
    (hkeys : s'.keys = (rehash h keyId row.tenantId secret s).keys) : Accounted h s' seen := by
  constructor
  · intro k row' hrow'
    rw [hkeys] at hrow'
    by_cases hk : k = keyId
    · rw [hk, get?_rehash_self hrow] at hrow'
      cases hrow'
      obtain ⟨key, hkey, hid, hof⟩ := hs.rows hrow
      have hsecret : secret = key.secret :=
        hash.unique hfree hof.hash hstructured hof.structured
      refine ⟨key, hkey, hid.trans hk.symm, hof.structured, hof.tenant, hof.scopes, ?_⟩
      right
      rw [← hsecret]
      exact ⟨rfl, macKey h row.tenantId currentPepper s.pepper s, rfl⟩
    · rw [get?_rehash_other _ _ _ _ hk] at hrow'
      exact hs.rows hrow'
  · intro k hgone
    obtain ⟨old, hold, hrevoked⟩ := hs.revoked k hgone
    rw [hkeys]
    by_cases hk : k = keyId
    · rw [hk, hrow] at hold
      cases hold
      exact ⟨anew h secret row s, by rw [hk, get?_rehash_self hrow], hrevoked⟩
    · exact ⟨old, by rw [get?_rehash_other _ _ _ _ hk, hold], hrevoked⟩

omit [DecidableEq Digest] in
theorem Accounted.revoke {s s' : KeyStore Key Digest} {seen : Seen} (hs : Accounted h s seen)
    {keyId : String} (hthere : ∃ row, s.keys.get? keyId = some row)
    (hkeys : ∀ k, s'.keys.get? k = (s.keys.get? k).map fun row =>
      if k = keyId then { row with revoked := true } else row) :
    Accounted h s' { seen with revoked := keyId :: seen.revoked } := by
  constructor
  · intro k row' hrow'
    rw [hkeys, Option.map_eq_some_iff] at hrow'
    obtain ⟨old, hold, rfl⟩ := hrow'
    obtain ⟨key, hkey, hid, hof⟩ := hs.rows hold
    refine ⟨key, hkey, hid, ?_⟩
    split
    · exact ⟨hof.structured, hof.tenant, hof.scopes, hof.hash⟩
    · exact hof
  · intro k hk
    rcases List.mem_cons.mp hk with rfl | hk
    · obtain ⟨row, hrow⟩ := hthere
      exact ⟨_, by rw [hkeys, hrow]; rfl, by simp⟩
    · obtain ⟨old, hold, hrevoked⟩ := hs.revoked k hk
      refine ⟨_, by rw [hkeys, hold]; rfl, ?_⟩
      split
      · rfl
      · exact hrevoked

theorem Accounted.step (hfree : CollisionFree h) {p p' : Api Key Digest} {seen : Seen}
    (hp : Accounted h p.store seen) {l : KeyLabel Key} (hstep : keyStep h p l = some p') :
    Accounted h p'.store (seeKeys h p l p' seen) := by
  cases l with
  | issue draw wall tenant scopes =>
    cases hstep
    rcases issue_cases h draw wall tenant scopes p.store with
      ⟨e, herror⟩ | ⟨keys, row, hinsert, -, hscopes, hrow, hissue⟩
    · simp only [seeKeys, herror]
      exact hp
    · simp only [seeKeys, hissue]
      apply hp.issue hinsert _ (keys_addAudit _ _ _ _)
      rw [hrow]
      refine ⟨?_, rfl, (scopes_roundTrip hscopes).1, .inr ⟨rfl, _, rfl⟩⟩
      show structuredKeyId draw.secret ≠ none
      rw [draw.structuredKeyId_secret]
      exact Option.some_ne_none _
  | present now secret clientIp =>
    simp only [keyStep] at hstep
    split at hstep
    · cases hstep
    · cases hstep
      obtain ⟨failures, hstore⟩ := present_eq now secret clientIp p.store
      apply hp.same
      rw [hstore]
  | answer now wall a =>
    simp only [keyStep] at hstep
    split at hstep
    · cases hstep
    · cases hstep
      rcases (answer_cases h now wall a p.store).keys with hkeys | ⟨_, _, hnamed, hrow, hash, hkeys⟩
      · exact hp.same hkeys
      · exact hp.rehash hfree hrow hash (Option.ne_none_iff_exists'.mpr ⟨_, hnamed⟩) hkeys
  | revoke wall keyId =>
    cases hstep
    rcases revoke_cases wall keyId p.store with hno | ⟨hthere, hyes, hkeys⟩
    · simp only [seeKeys, hno]
      exact hp
    · simp only [seeKeys, hyes, if_true]
      exact hp.revoke hthere hkeys
  | restart now =>
    cases hstep
    exact hp.same rfl
  | rotate now pepper =>
    cases hstep
    exact hp.same rfl

theorem Accounted.run (hfree : CollisionFree h) {p₀ p : Api Key Digest} {seen₀ seen : Seen}
    (hinit : Accounted h p₀.store seen₀) {ls : List (KeyLabel Key)}
    (hrun : ((keySystem h).monitor (seeKeys h)).run (p₀, seen₀) ls = some (p, seen)) :
    Accounted h p.store seen := by
  apply System.run_invariant (T := (keySystem h).monitor (seeKeys h))
    (I := fun m => Accounted h m.1.store m.2) _ hinit hrun
  intro m l m' hm hstep
  obtain ⟨hkey, hseen⟩ := System.monitor_step.mp hstep
  rw [hseen]
  exact hm.step hfree hkey

theorem Accounted.accepted (hfree : CollisionFree h) {s : KeyStore Key Digest} {seen : Seen}
    (hs : Accounted h s seen) {now wall : ℚ} {a : Attempt} {principal : Principal}
    (haccepted : (answer h now wall a s).2 = some principal) :
    ∃ key ∈ seen.issued, a.secret = key.secret ∧ key.keyId ∉ seen.revoked ∧
      principal = .fromApiKey key.keyId key.tenantId (sorted key.scopes) := by
  have hanswer := answer_cases h now wall a s
  generalize answer h now wall a s = result at hanswer haccepted
  cases hanswer with
  | unmatched => cases haccepted
  | malformed found => cases haccepted
  | accepted found htenant hscopes =>
    cases haccepted
    obtain ⟨key, hkey, hid, hof⟩ := hs.rows found.there
    have hnamed : structuredKeyId a.secret ≠ none :=
      Option.ne_none_iff_exists'.mpr ⟨_, found.named⟩
    refine ⟨key, hkey, found.hash.unique hfree hof.hash hnamed hof.structured, fun hgone => ?_, ?_⟩
    · obtain ⟨row', hrow', hrevoked⟩ := hs.revoked _ hgone
      rw [hid, found.there] at hrow'
      cases hrow'
      rw [found.live] at hrevoked
      cases hrevoked
    · rw [hid, validateTenantId_ok htenant, (validateScopes_ok hscopes).1, hof.tenant, hof.scopes]

/-- Over any history of issues, attempts, revocations, restarts and rotations: a secret is accepted
only if it is the one of a key that was issued and has not been revoked, and then for this key, its
tenant and its scopes. -/
theorem accepted_was_issued (hfree : CollisionFree h) {p₀ p : Api Key Digest} {seen₀ seen : Seen}
    (hinit : Accounted h p₀.store seen₀) {ls : List (KeyLabel Key)}
    (hrun : ((keySystem h).monitor (seeKeys h)).run (p₀, seen₀) ls = some (p, seen))
    {now wall : ℚ} {a : Attempt} {principal : Principal}
    (haccepted : (answer h now wall a p.store).2 = some principal) :
    ∃ key ∈ seen.issued, a.secret = key.secret ∧ key.keyId ∉ seen.revoked ∧
      principal.subject = key.keyId ∧ principal.tenant = key.tenantId ∧
      ∀ scope, scope ∈ principal.scopes ↔ scope ∈ key.scopes := by
  obtain ⟨key, hkey, hsecret, hlive, rfl⟩ := (hinit.run hfree hrun).accepted hfree haccepted
  exact ⟨key, hkey, hsecret, hlive, rfl, rfl, fun _ => mem_sorted⟩

/-! A process with two keys, of which the second is revoked. -/

def demoHashes : Hashes String (String × String) where
  hmac key secret := (key, secret)
  hkdf key info := key ++ "/" ++ info
  pbkdf2 secret _ := ("", secret)

theorem demoHashes_free : CollisionFree demoHashes :=
  ⟨fun _ _ heq => (Prod.mk.inj heq).2, fun _ _ heq => (Prod.mk.inj heq).2⟩

def demoApi : Api String (String × String) where
  store := { bindTenant := true, pepper := "pepper-1", previousPepper := none, maxFailures := 2 }

def firstDraw : Draw := ⟨"0a1b", "t-1", by decide, by decide, by decide, by decide⟩

def secondDraw : Draw := ⟨"2c3d", "t_2", by decide, by decide, by decide, by decide⟩

def attemptOf (secret : String) : Attempt := ⟨secret, "192.0.2.1"⟩

def twoKeys : List (KeyLabel String) :=
  [.issue firstDraw 0 "alpha" ["runs", "blobs"], .issue secondDraw 0 "beta" ["admin"],
    .present 5 secondDraw.secret "192.0.2.1", .revoke 7 secondDraw.keyId,
    .answer 8 8 (attemptOf secondDraw.secret)]

theorem demoApi_accounted : Accounted demoHashes demoApi.store {} := by
  constructor
  · intro k row hrow
    cases hrow
  · intro k hk
    cases hk

theorem accepted_was_issued_twoKeys :
    ∃ p seen principal, ((keySystem demoHashes).monitor (seeKeys demoHashes)).run (demoApi, {})
        twoKeys = some (p, seen) ∧
      (answer demoHashes 9 9 (attemptOf firstDraw.secret) p.store).2 = some principal ∧
      (answer demoHashes 9 9 (attemptOf secondDraw.secret) p.store).2 = none ∧
      ∃ key ∈ seen.issued, firstDraw.secret = key.secret ∧ key.keyId ∉ seen.revoked ∧
        principal.subject = key.keyId ∧ principal.tenant = key.tenantId ∧
        ∀ scope, scope ∈ principal.scopes ↔ scope ∈ key.scopes := by
  have hrun : (((keySystem demoHashes).monitor (seeKeys demoHashes)).run (demoApi, {})
      twoKeys).any (fun m =>
        (answer demoHashes 9 9 (attemptOf firstDraw.secret) m.1.store).2.isSome &&
        (answer demoHashes 9 9 (attemptOf secondDraw.secret) m.1.store).2.isNone) = true := by
    decide +kernel
  obtain ⟨⟨p, seen⟩, hm, hanswers⟩ := (Option.any_eq_true _ _).mp hrun
  rw [Bool.and_eq_true] at hanswers
  obtain ⟨principal, hfirst⟩ := Option.isSome_iff_exists.mp hanswers.1
  exact ⟨p, seen, principal, hm, hfirst, Option.isNone_iff_eq_none.mp hanswers.2,
    accepted_was_issued demoHashes_free demoApi_accounted hm hfirst⟩

/-! ### Keys over rotations -/

/-- The process is the same but for its keys, its audit rows and its failures. -/
def SameProcess (s s' : KeyStore Key Digest) : Prop :=
  ∃ keys audit failures, s' = { s with keys, audit, failures }

omit [DecidableEq Digest] in
theorem SameProcess.addAudit {s s' : KeyStore Key Digest} (hs : SameProcess s s') (wall : ℚ)
    (action : AuditAction) (keyId : Option String) :
    SameProcess s (addAudit wall action keyId s') := by
  obtain ⟨keys, _, failures, rfl⟩ := hs
  obtain ⟨audit, haudit⟩ := addAudit_eq wall action keyId { s with keys, failures, audit := _ }
  exact ⟨keys, audit, failures, haudit⟩

omit [DecidableEq Digest] in
theorem SameProcess.max {s s' : KeyStore Key Digest} (hs : SameProcess s s') :
    s'.maxFailures = s.maxFailures := by
  obtain ⟨_, _, _, rfl⟩ := hs
  rfl

omit [DecidableEq Digest] in
theorem Matched.sameProcess {a : Attempt} {s s' : KeyStore Key Digest} {keyId : String}
    {row : ApiKeyRow Digest} (found : Matched h a s s' keyId row) : SameProcess s s' := by
  rcases found.store with rfl | rfl
  · exact ⟨_, _, _, rfl⟩
  · exact ⟨_, _, _, rfl⟩

theorem answer_sameProcess (now wall : ℚ) (a : Attempt) (s : KeyStore Key Digest) :
    SameProcess s (answer h now wall a s).1 := by
  have hanswer := answer_cases h now wall a s
  generalize answer h now wall a s = result at hanswer ⊢
  cases hanswer with
  | unmatched =>
    dsimp only
    apply SameProcess.addAudit
    exact ⟨_, _, _, rfl⟩
  | malformed found =>
    obtain ⟨keys, audit, failures, heq⟩ := found.sameProcess.addAudit wall _ _
    dsimp only
    rw [heq]
    apply SameProcess.addAudit
    exact ⟨_, _, _, rfl⟩
  | accepted found => exact found.sameProcess.addAudit wall _ _

omit [DecidableEq Digest] in
theorem present_sameProcess (now : ℚ) (secret clientIp : String) (s : KeyStore Key Digest) :
    SameProcess s (present now secret clientIp s).1 := by
  obtain ⟨failures, hstore⟩ := present_eq now secret clientIp s
  exact ⟨_, _, _, hstore⟩

omit [DecidableEq Digest] in
theorem issue_sameProcess (draw : Draw) (wall : ℚ) (tenant : String) (scopes : List String)
    (s : KeyStore Key Digest) : SameProcess s (issue h draw wall tenant scopes s).1 := by
  rcases issue_cases h draw wall tenant scopes s with ⟨e, herror⟩ | ⟨keys, row, -, -, -, -, hissue⟩
  · rw [herror]
    exact ⟨_, _, _, rfl⟩
  · rw [hissue]
    dsimp only
    apply SameProcess.addAudit
    exact ⟨_, _, _, rfl⟩

omit [DecidableEq Digest] in
theorem revoke_sameProcess (wall : ℚ) (keyId : String) (s : KeyStore Key Digest) :
    SameProcess s (revoke wall keyId s).1 := by
  unfold revoke
  split
  · dsimp only
    apply SameProcess.addAudit
    exact ⟨_, _, _, rfl⟩
  · exact ⟨_, _, _, rfl⟩

/-- The row of a live key: its hash is one under the pepper, or under the previous one while the key
has not been used since the rotation. -/
structure Serves (h : Hashes Key Digest) (key : IssuedApiKey) (s : KeyStore Key Digest)
    (used : Bool) (row : ApiKeyRow Digest) : Prop where
  there : s.keys.get? key.keyId = some row
  live : row.revoked = false
  tenant : row.tenantId = key.tenantId
  scopes : splitAt ',' row.scopes = sorted key.scopes
  alg : row.hashAlg = .hmacSha256
  pepperId : row.pepperId = currentPepper
  hash : hmac h key.secret key.tenantId currentPepper s.pepper s = row.keyHash ∨
    used = false ∧ ∃ previous, s.previousPepper = some previous ∧
      hmac h key.secret key.tenantId currentPepper previous s = row.keyHash

omit [DecidableEq Digest] in
theorem Serves.hashOf {key : IssuedApiKey} {s : KeyStore Key Digest} {used : Bool}
    {row : ApiKeyRow Digest} (hs : Serves h key s used row) : HashOf h key.secret row := by
  rcases hs.hash with hash | ⟨-, previous, -, hash⟩
  · exact .inr ⟨hs.alg, _, hash⟩
  · exact .inr ⟨hs.alg, _, hash⟩

omit [DecidableEq Digest] in
/-- The key serves on where neither its row nor the process has changed. -/
theorem Serves.same {key : IssuedApiKey} {s s' : KeyStore Key Digest} {used : Bool}
    {row : ApiKeyRow Digest} (hs : Serves h key s used row) (hsame : SameProcess s s')
    (hthere : s'.keys.get? key.keyId = some row) : Serves h key s' used row := by
  obtain ⟨keys, audit, failures, rfl⟩ := hsame
  exact ⟨hthere, hs.live, hs.tenant, hs.scopes, hs.alg, hs.pepperId, hs.hash⟩

/-- The comparison succeeds, and behind it the hash is one under the pepper. -/
theorem Serves.hashMatches {key : IssuedApiKey} {s : KeyStore Key Digest} {used : Bool}
    {row : ApiKeyRow Digest} (hs : Serves h key s used row) :
    ∃ s' row', hashMatches h key.keyId key.secret row s = (s', true) ∧
      SameProcess s s' ∧ Serves h key s' true row' := by
  have hrehash : SameProcess s (rehash h key.keyId row.tenantId key.secret s) :=
    ⟨_, _, _, rfl⟩
  have hanew : Serves h key (rehash h key.keyId row.tenantId key.secret s) true
      (anew h key.secret row s) :=
    ⟨get?_rehash_self hs.there, hs.live, hs.tenant, hs.scopes, rfl, rfl,
      .inl (by rw [← hs.tenant]; rfl)⟩
  have hpepper : (if row.pepperId = "" then "legacy" else row.pepperId) = currentPepper := by
    rw [hs.pepperId]
    exact if_neg (by decide)
  unfold ApiKeys.hashMatches
  rw [if_neg (by rw [hs.alg]; decide)]
  dsimp only
  rw [hpepper, hs.tenant]
  split
  · rename_i hash
    rw [if_neg (by decide)]
    exact ⟨s, row, rfl, ⟨_, _, _, rfl⟩,
      hs.there, hs.live, hs.tenant, hs.scopes, hs.alg, hs.pepperId, .inl hash⟩
  · rename_i hno
    rcases hs.hash with hash | ⟨-, previous, hprevious, hash⟩
    · exact absurd hash hno
    · rw [hprevious]
      dsimp only
      rw [if_pos hash, ← hs.tenant]
      exact ⟨_, _, rfl, hrehash, hanew⟩

/-- An attempt with the secret of the key is answered, and the key has been used. -/
theorem Serves.accepted {key : IssuedApiKey} {s : KeyStore Key Digest} {used : Bool}
    {row : ApiKeyRow Digest} (hs : Serves h key s used row)
    (htenant : validateTenantId key.tenantId = .ok key.tenantId)
    (hscopes : validateScopes (sorted key.scopes) = .ok (sorted key.scopes)) {a : Attempt}
    (hsecret : a.secret = key.secret) (hkeyId : a.keyId = some key.keyId) (now wall : ℚ) :
    (answer h now wall a s).2 =
      some (.fromApiKey key.keyId key.tenantId (sorted key.scopes)) ∧
    ∃ row', Serves h key (answer h now wall a s).1 true row' := by
  obtain ⟨s', row', hmatch, hsame, hserves⟩ := hs.hashMatches
  have hlook : lookUp h wall a s = (addAudit wall .authenticated (some key.keyId) s',
      some (.fromApiKey key.keyId key.tenantId (sorted key.scopes))) := by
    unfold lookUp
    rw [hkeyId]
    dsimp only
    rw [hs.there, Option.filter_some, hs.live, Bool.not_false, if_pos rfl]
    dsimp only
    unfold principalFromRow
    rw [hsecret, hmatch]
    dsimp only
    rw [hs.tenant, hs.scopes, htenant, hscopes]
  have hanswer : answer h now wall a s = (addAudit wall .authenticated (some key.keyId) s',
      some (.fromApiKey key.keyId key.tenantId (sorted key.scopes))) := by
    unfold answer
    rw [hlook]
  rw [hanswer]
  have hsame : SameProcess s' s' := ⟨_, _, _, rfl⟩
  refine ⟨rfl, row', hserves.same (hsame.addAudit wall _ _) ?_⟩
  rw [keys_addAudit]
  exact hserves.there

omit [DecidableEq Digest] in
theorem Serves.weaken {key : IssuedApiKey} {s : KeyStore Key Digest} {row : ApiKeyRow Digest}
    (hs : Serves h key s true row) (used : Bool) : Serves h key s used row := by
  refine ⟨hs.there, hs.live, hs.tenant, hs.scopes, hs.alg, hs.pepperId, .inl ?_⟩
  rcases hs.hash with hash | ⟨hno, -⟩
  · exact hash
  · cases hno

omit [DecidableEq Digest] in
/-- The pepper becomes the previous one. -/
theorem Serves.rotate {key : IssuedApiKey} {p : Api Key Digest} {row : ApiKeyRow Digest}
    (hs : Serves h key p.store true row) (now : ℚ) (pepper : Key) :
    Serves h key (reopened now pepper (some p.store.pepper) p).store false row := by
  refine ⟨hs.there, hs.live, hs.tenant, hs.scopes, hs.alg, hs.pepperId, .inr ⟨rfl, _, rfl, ?_⟩⟩
  rcases hs.hash with hash | ⟨hno, -⟩
  · exact hash
  · cases hno

/-- Whether the key has been accepted since the last rotation. -/
def seeUse (h : Hashes Key Digest) (key : IssuedApiKey) (p : Api Key Digest) (l : KeyLabel Key)
    (_ : Api Key Digest) (used : Bool) : Bool :=
  match l with
  | .answer now wall a =>
    used || (a.secret = key.secret && a.keyId = some key.keyId &&
      (answer h now wall a p.store).2.isSome)
  | .rotate .. => false
  | _ => used

/-- The key is not revoked, and no rotation follows another one before the key has been used. -/
structure Tended (keyId : String) (m : Api Key Digest × Bool) (l : KeyLabel Key)
    (_ : Api Key Digest × Bool) : Prop where
  rotate : ∀ now pepper, l = .rotate now pepper → m.2 = true
  revoke : ∀ wall, l ≠ .revoke wall keyId

theorem Serves.step (hfree : CollisionFree h) {key : IssuedApiKey}
    (hkeyId : structuredKeyId key.secret = some key.keyId)
    (htenant : validateTenantId key.tenantId = .ok key.tenantId)
    (hscopes : validateScopes (sorted key.scopes) = .ok (sorted key.scopes)) {p p' : Api Key Digest}
    {used : Bool} {row : ApiKeyRow Digest} (hs : Serves h key p.store used row) {l : KeyLabel Key}
    (hstep : keyStep h p l = some p') {m' : Api Key Digest × Bool}
    (htended : Tended key.keyId (p, used) l m') :
    ∃ row', Serves h key p'.store (seeUse h key p l p' used) row' := by
  cases l with
  | issue draw wall tenant scopes =>
    cases hstep
    refine ⟨row, hs.same (issue_sameProcess draw wall tenant scopes p.store) ?_⟩
    rcases issue_cases h draw wall tenant scopes p.store with
      ⟨e, herror⟩ | ⟨keys, row', hinsert, -, -, -, hissue⟩
    · rw [herror]
      exact hs.there
    · rw [hissue, keys_addAudit, Table.get?_insert hinsert, if_neg, hs.there]
      intro heq
      apply (Table.insert_eq_some.mp hinsert).1
      rw [← heq]
      exact Table.mem_keys.mpr ⟨row, Table.get?_eq_some.mp hs.there⟩
  | present now secret clientIp =>
    simp only [keyStep] at hstep
    split at hstep
    · cases hstep
    · cases hstep
      refine ⟨row, hs.same (present_sameProcess now secret clientIp p.store) ?_⟩
      obtain ⟨failures, hstore⟩ := present_eq now secret clientIp p.store
      exact (congrArg (fun store => store.keys.get? key.keyId) hstore).trans hs.there
  | answer now wall a =>
    simp only [keyStep] at hstep
    split at hstep
    · cases hstep
    · cases hstep
      by_cases hours : a.secret = key.secret ∧ a.keyId = some key.keyId
      · -- The attempt is one with the key, and is accepted.
        obtain ⟨haccepted, row', hrow'⟩ := hs.accepted htenant hscopes hours.1 hours.2 now wall
        exact ⟨row', hrow'.weaken _⟩
      · have hused : ∀ p', seeUse h key p (.answer now wall a) p' used = used := by
          intro p'
          unfold seeUse
          rw [not_and_or] at hours
          rcases hours with hsecret | hnamed
          · simp [hsecret]
          · simp [hnamed]
        refine ⟨row, ?_⟩
        rw [hused]
        apply hs.same (answer_sameProcess now wall a p.store)
        rcases (answer_cases h now wall a p.store).keys with
          hkeys | ⟨keyId, found, hnamed, hfound, hash, hkeys⟩
        · rw [hkeys]
          exact hs.there
        · -- Another key is hashed anew: with this one, the secret would be the same.
          have hother : key.keyId ≠ keyId := by
            intro heq
            rw [← heq, hs.there] at hfound
            cases hfound
            have hsecret : a.secret = key.secret := hash.unique hfree hs.hashOf
              (Option.ne_none_iff_exists'.mpr ⟨_, hnamed⟩)
              (Option.ne_none_iff_exists'.mpr ⟨_, hkeyId⟩)
            exact hours ⟨hsecret, hnamed.trans (congrArg some heq.symm)⟩
          rw [hkeys, get?_rehash_other _ _ _ _ hother]
          exact hs.there
  | revoke wall keyId =>
    cases hstep
    refine ⟨row, hs.same (revoke_sameProcess wall keyId p.store) ?_⟩
    rcases revoke_cases wall keyId p.store with hno | ⟨-, -, hkeys⟩
    · rw [hno]
      exact hs.there
    · have hother : key.keyId ≠ keyId := by
        intro heq
        exact htended.revoke wall (congrArg _ heq.symm)
      rw [hkeys, hs.there, Option.map_some, if_neg hother]
  | restart now =>
    cases hstep
    exact ⟨row, hs.same ⟨_, _, _, rfl⟩ hs.there⟩
  | rotate now pepper =>
    cases hstep
    have hused : used = true := htended.rotate now pepper rfl
    rw [hused] at hs
    exact ⟨row, hs.rotate now pepper⟩

/-- Once the limiter lets it through, a key is accepted for its tenant and its scopes, over any
history in which it is not revoked and the pepper is not rotated twice without a use in between. -/
theorem key_outlives_rotations (hfree : CollisionFree h) {p₀ p₁ p : Api Key Digest} {draw : Draw}
    {wall₀ : ℚ} {tenant : String} {scopes : List String} {key : IssuedApiKey}
    (hissue : (issue h draw wall₀ tenant scopes p₀.store).2 = .ok key)
    (hissued : keyStep h p₀ (.issue draw wall₀ tenant scopes) = some p₁) {used : Bool}
    {ls : List (KeyLabel Key)}
    (hrun : ((keySystem h).monitor (seeUse h key)).run (p₁, true) ls = some (p, used))
    (htended : ((keySystem h).monitor (seeUse h key)).Along (Tended key.keyId) (p₁, true) ls)
    (now wall : ℚ) (clientIp : String) :
    (answer h now wall ⟨key.secret, clientIp⟩ p.store).2 =
      some (.fromApiKey key.keyId tenant (sorted scopes)) := by
  cases hissued
  rcases issue_cases h draw wall₀ tenant scopes p₀.store with
    ⟨e, herror⟩ | ⟨keys, row, hinsert, htenant, hscopes, hrow, heq⟩
  · rw [herror] at hissue
    cases hissue
  · rw [heq] at hissue
    cases hissue
    obtain ⟨hsplit, hvalid⟩ := scopes_roundTrip hscopes
    have hstart : Serves h ⟨draw.keyId, draw.secret, tenant, scopes⟩
        (issue h draw wall₀ tenant scopes p₀.store).1 true row := by
      obtain ⟨_, _, _, hsame⟩ := issue_sameProcess (h := h) draw wall₀ tenant scopes p₀.store
      refine ⟨?_, by rw [hrow], by rw [hrow], by rw [hrow]; exact hsplit, by rw [hrow],
        by rw [hrow], .inl ?_⟩
      · rw [heq, keys_addAudit, Table.get?_insert hinsert, if_pos rfl]
      · rw [hsame, hrow]
        rfl
    have hserves : ∃ row',
        Serves h ⟨draw.keyId, draw.secret, tenant, scopes⟩ p.store used row' := by
      apply System.run_invariant_along (T := (keySystem h).monitor (seeUse h _))
        (I := fun m => ∃ row',
          Serves h ⟨draw.keyId, draw.secret, tenant, scopes⟩ m.1.store m.2 row')
        _ ⟨row, hstart⟩ htended hrun
      intro m l m' hm hstep hguard
      obtain ⟨hkey, hseen⟩ := System.monitor_step.mp hstep
      obtain ⟨row', hrow'⟩ := hm
      rw [hseen]
      have hkeyId : structuredKeyId
          (⟨draw.keyId, draw.secret, tenant, scopes⟩ : IssuedApiKey).secret = some draw.keyId := by
        dsimp only
        exact draw.structuredKeyId_secret
      exact hrow'.step hfree hkeyId htenant hvalid hkey hguard
    obtain ⟨row', hrow'⟩ := hserves
    have hkeyId : (⟨draw.secret, clientIp⟩ : Attempt).keyId = some draw.keyId :=
      draw.structuredKeyId_secret
    exact (hrow'.accepted htenant hvalid (a := ⟨draw.secret, clientIp⟩) rfl hkeyId now wall).1

/-- The key is used in between. -/
def twoRotations : List (KeyLabel String) :=
  [.rotate 1 "pepper-2", .present 2 firstDraw.secret "192.0.2.1",
    .answer 3 3 (attemptOf firstDraw.secret), .rotate 4 "pepper-3", .restart 5]

def firstKey : IssuedApiKey := ⟨firstDraw.keyId, firstDraw.secret, "alpha", ["runs", "blobs"]⟩

theorem key_outlives_rotations_twice :
    ∃ p₁ p used, keyStep demoHashes demoApi (.issue firstDraw 0 "alpha" ["runs", "blobs"]) =
        some p₁ ∧
      ((keySystem demoHashes).monitor (seeUse demoHashes firstKey)).run (p₁, true) twoRotations =
        some (p, used) ∧ used = false ∧
      (answer demoHashes 6 6 ⟨firstDraw.secret, "192.0.2.1"⟩ p.store).2 =
        some (.fromApiKey firstDraw.keyId "alpha" (sorted ["runs", "blobs"])) := by
  have hissue : (issue demoHashes firstDraw 0 "alpha" ["runs", "blobs"] demoApi.store).2 =
      .ok firstKey := by decide +kernel
  have hrun : (((keySystem demoHashes).monitor (seeUse demoHashes firstKey)).run
      ({ demoApi with
        store := (issue demoHashes firstDraw 0 "alpha" ["runs", "blobs"] demoApi.store).1 }, true)
      twoRotations).map Prod.snd = some false := by decide +kernel
  obtain ⟨⟨p, used⟩, hm, hused⟩ := Option.map_eq_some_iff.mp hrun
  have hcheck : ((keySystem demoHashes).monitor (seeUse demoHashes firstKey)).check
      (fun m l => match l with
        | .rotate _ _ => m.2
        | .revoke _ keyId => keyId ≠ firstKey.keyId
        | _ => true)
      ({ demoApi with
        store := (issue demoHashes firstDraw 0 "alpha" ["runs", "blobs"] demoApi.store).1 }, true)
      twoRotations = true := by decide +kernel
  have htended := System.along_mono (Q := Tended firstKey.keyId) (fun m l m' _ hguard => by
    constructor
    · rintro now pepper rfl
      exact hguard
    · rintro wall rfl
      simp at hguard) (System.along_of_check hcheck)
  exact ⟨_, p, used, rfl, hm, hused,
    key_outlives_rotations demoHashes_free hissue rfl hm htended 6 6 "192.0.2.1"⟩

/-! ### The limiter over time -/

theorem failures_answer (h : Hashes Key Digest) (now wall : ℚ) (a : Attempt)
    (s : KeyStore Key Digest) :
    (answer h now wall a s).1.failures = if (answer h now wall a s).2.isSome then s.failures else
      Function.update s.failures a.bucket (s.failures a.bucket ++ [now]) := by
  have hmatched : ∀ {s' keyId row}, Matched h a s s' keyId row → s'.failures = s.failures := by
    intro s' keyId row found
    rcases found.store with rfl | rfl
    · rfl
    · rfl
  have hanswer := answer_cases h now wall a s
  generalize answer h now wall a s = result at hanswer ⊢
  cases hanswer with
  | unmatched => exact failures_addAudit ..
  | @malformed _ keyId _ found =>
    have hstore := (failures_addAudit wall .authenticationFailed (some keyId) _).trans
      (hmatched found)
    rw [failures_addAudit, ← hstore]
    rfl
  | accepted found => exact (failures_addAudit ..).trans (hmatched found)

/-- The failures of a bucket in this process, the newest first. -/
def seeFailures (h : Hashes Key Digest) (bucket : String) (p : Api Key Digest) (l : KeyLabel Key)
    (_ : Api Key Digest) (times : List ℚ) : List ℚ :=
  match l with
  | .answer now wall a =>
    if a.bucket = bucket ∧ (answer h now wall a p.store).2 = none then now :: times else times
  | .restart _ | .rotate _ _ => []
  | _ => times

def under (bucket : String) (a : Attempt) : Bool := a.bucket = bucket

/-- `limit` bounds the failures since a time within the last minute together with the attempts under
way, and so the failures of any minute. -/
structure Throttled (bucket : String) (limit : ℕ) (p : Api Key Digest) (times : List ℚ) :
    Prop where
  past : ∀ t ∈ times, t ≤ p.clock
  kept : ∀ t₀, p.clock < t₀ + 60 →
    times.countP (fun t => t₀ ≤ t) = (p.store.failures bucket).countP fun t => t₀ ≤ t
  load : ∀ t₀, p.clock < t₀ + 60 →
    times.countP (fun t => t₀ ≤ t) + p.attempts.countP (under bucket) ≤ limit
  window : ∀ t₀, times.countP (fun t => t₀ ≤ t ∧ t < t₀ + 60) ≤ limit

omit [DecidableEq Digest] in
/-- A failure ends an attempt, so the load is what it was. -/
theorem Throttled.fail {bucket : String} {limit : ℕ} {p : Api Key Digest} {times : List ℚ}
    (hp : Throttled bucket limit p times) {now : ℚ} (hnow : p.clock ≤ now) {a : Attempt}
    (ha : a ∈ p.attempts) (hbucket : a.bucket = bucket) {store : KeyStore Key Digest}
    (hfailures : store.failures bucket = p.store.failures bucket ++ [now]) :
    Throttled bucket limit ⟨store, now, p.attempts.erase a⟩ (now :: times) := by
  have hload : ∀ t₀, now < t₀ + 60 →
      (now :: times).countP (fun t => t₀ ≤ t) + (p.attempts.erase a).countP (under bucket) ≤
        limit := by
    intro t₀ ht₀
    have hbefore := hp.load t₀ (lt_of_le_of_lt hnow ht₀)
    have hone : (now :: times).countP (fun t => t₀ ≤ t) ≤ times.countP (fun t => t₀ ≤ t) + 1 := by
      rw [List.countP_cons]
      split <;> omega
    have hunder : under bucket a = true := decide_eq_true hbucket
    have herase : p.attempts.countP (under bucket) =
        (p.attempts.erase a).countP (under bucket) + 1 := by
      rw [(List.perm_cons_erase ha).countP_eq, List.countP_cons, if_pos hunder]
    omega
  refine ⟨?_, ?_, hload, ?_⟩
  · intro t ht
    rcases List.mem_cons.mp ht with rfl | ht
    · exact le_rfl
    · exact (hp.past t ht).trans hnow
  · intro t₀ ht₀
    show (now :: times).countP _ = (store.failures bucket).countP _
    rw [hfailures, List.countP_cons, List.countP_append, List.countP_singleton,
      hp.kept t₀ (lt_of_le_of_lt hnow ht₀)]
  · intro t₀
    by_cases hin : now < t₀ + 60
    · apply le_trans _ ((Nat.le_add_right _ _).trans (hload t₀ hin))
      apply List.countP_mono_left
      intro t _ ht
      simp only [decide_eq_true_eq] at ht ⊢
      exact ht.1
    · rw [List.countP_cons, if_neg (by simp [hin]), Nat.add_zero]
      exact hp.window t₀

omit [DecidableEq Digest] in
/-- Time passes, and attempts of others come and go. -/
theorem Throttled.pass {bucket : String} {limit : ℕ} {p p' : Api Key Digest} {times : List ℚ}
    (hp : Throttled bucket limit p times) (hclock : p.clock ≤ p'.clock)
    (hfailures : p'.store.failures bucket = p.store.failures bucket)
    (hattempts : p'.attempts.countP (under bucket) ≤ p.attempts.countP (under bucket)) :
    Throttled bucket limit p' times := by
  refine ⟨fun t ht => (hp.past t ht).trans hclock, fun t₀ ht₀ => ?_, fun t₀ ht₀ => ?_, hp.window⟩
  · rw [hfailures]
    exact hp.kept t₀ (lt_of_le_of_lt hclock ht₀)
  · have hbefore := hp.load t₀ (lt_of_le_of_lt hclock ht₀)
    omega

omit [DecidableEq Digest] in
/-- The failures of the last minute are what the limiter looks at. -/
theorem Throttled.check {bucket : String} {limit : ℕ} {p p' : Api Key Digest} {times : List ℚ}
    (hp : Throttled bucket limit p times) (hclock : p.clock ≤ p'.clock)
    (hfailures : p'.store.failures bucket =
      (p.store.failures bucket).filter fun t => p'.clock - t < 60)
    (hattempts : p'.attempts.countP (under bucket) ≤ p.attempts.countP (under bucket) ∨
      (p'.store.failures bucket).length + p'.attempts.countP (under bucket) ≤ limit) :
    Throttled bucket limit p' times := by
  have hkept : ∀ t₀, p'.clock < t₀ + 60 →
      times.countP (fun t => t₀ ≤ t) = (p'.store.failures bucket).countP fun t => t₀ ≤ t := by
    intro t₀ ht₀
    rw [hp.kept t₀ (lt_of_le_of_lt hclock ht₀), hfailures, List.countP_filter]
    apply List.countP_congr
    intro t _
    simp only [Bool.and_eq_true, decide_eq_true_eq]
    constructor
    · intro ht
      exact ⟨ht, by linarith⟩
    · exact And.left
  refine ⟨fun t ht => (hp.past t ht).trans hclock, hkept, fun t₀ ht₀ => ?_, hp.window⟩
  rcases hattempts with hless | hroom
  · have hbefore := hp.load t₀ (lt_of_le_of_lt hclock ht₀)
    omega
  · rw [hkept t₀ ht₀]
    have hcount : (p'.store.failures bucket).countP (fun t => t₀ ≤ t) ≤
        (p'.store.failures bucket).length := List.countP_le_length
    omega

omit [DecidableEq Digest] in
theorem throttled_nil {bucket : String} (limit : ℕ) {p : Api Key Digest}
    (hfailures : p.store.failures bucket = []) (hattempts : p.attempts = []) :
    Throttled bucket limit p [] := by
  refine ⟨fun _ hmem => (by cases hmem), fun t₀ _ => ?_, fun t₀ _ => ?_, fun t₀ => Nat.zero_le _⟩
  · rw [hfailures]
  · rw [hattempts]
    exact Nat.zero_le _

theorem Throttled.step {bucket : String} {n : ℕ} {p p' : Api Key Digest} {times : List ℚ}
    (hp : Throttled bucket (p.store.maxFailures - 1 + n) p times) {l : KeyLabel Key}
    (hstep : keyStep h p l = some p') (hfew : p'.attempts.countP (under bucket) ≤ n) :
    Throttled bucket (p.store.maxFailures - 1 + n) p' (seeFailures h bucket p l p' times) := by
  cases l with
  | issue draw wall tenant scopes =>
    cases hstep
    show Throttled bucket _ _ times
    refine hp.pass (le_refl p.clock) ?_ (le_refl _)
    rcases issue_cases h draw wall tenant scopes p.store with
      ⟨e, herror⟩ | ⟨keys, row, -, -, -, -, hissue⟩
    · rw [herror]
    · rw [hissue, failures_addAudit]
  | present now secret clientIp =>
    simp only [keyStep] at hstep
    split at hstep
    · cases hstep
    · rename_i hclock
      cases hstep
      show Throttled bucket _ _ times
      have hclock' : p.clock ≤ now := not_lt.mp hclock
      rcases present_cases now secret clientIp p.store with
        hno | ⟨checked, kept, hkept, hstore, hpassed⟩
      · apply hp.pass hclock'
        · rw [hno]
        · rw [hno]
          exact le_rfl
      · have hfailures : (present now secret clientIp p.store).1.failures =
            Function.update p.store.failures checked kept := congrArg KeyStore.failures hstore
        by_cases hbucket : checked = bucket
        · apply hp.check hclock'
          · rw [hfailures, hbucket, Function.update_self, hkept, hbucket]
          · cases hattempt : (present now secret clientIp p.store).2 with
            | none => exact .inl le_rfl
            | some a =>
              right
              have hroom := (hpassed a hattempt).2
              have hfew' : ((some a).toList ++ p.attempts).countP (under bucket) ≤ n := by
                rw [← hattempt]
                exact hfew
              rw [hfailures, hbucket, Function.update_self]
              show kept.length + ((some a).toList ++ p.attempts).countP (under bucket) ≤ _
              omega
        · apply hp.pass hclock'
          · rw [hfailures, Function.update_of_ne (Ne.symm hbucket)]
          · cases hattempt : (present now secret clientIp p.store).2 with
            | none => exact le_rfl
            | some a =>
              have hother : under bucket a = false := by
                unfold under
                rw [(hpassed a hattempt).1]
                exact decide_eq_false hbucket
              show ((some a).toList ++ p.attempts).countP (under bucket) ≤ _
              rw [Option.toList_some, List.singleton_append, List.countP_cons, hother]
              exact le_rfl
  | answer now wall a =>
    simp only [keyStep] at hstep
    split at hstep
    · cases hstep
    · rename_i hready
      cases hstep
      rw [not_or, not_lt, not_not] at hready
      obtain ⟨hclock, ha⟩ := hready
      have hfailures := failures_answer h now wall a p.store
      have hfewer : (p.attempts.erase a).countP (under bucket) ≤ p.attempts.countP (under bucket) :=
        List.erase_sublist.countP_le
      by_cases hours : a.bucket = bucket ∧ (answer h now wall a p.store).2 = none
      · simp only [seeFailures, if_pos hours]
        rw [hours.2] at hfailures
        apply hp.fail hclock ha hours.1
        rw [hfailures, ← hours.1]
        exact Function.update_self ..
      · simp only [seeFailures, if_neg hours]
        apply hp.pass hclock _ hfewer
        rw [hfailures]
        split
        · rfl
        · rename_i hnone
          rw [Option.not_isSome_iff_eq_none] at hnone
          apply Function.update_of_ne
          exact fun heq => hours ⟨heq.symm, hnone⟩
  | revoke wall keyId =>
    cases hstep
    show Throttled bucket _ _ times
    refine hp.pass (le_refl p.clock) ?_ (le_refl _)
    unfold revoke
    split
    · rw [failures_addAudit]
    · rfl
  | restart now =>
    cases hstep
    exact throttled_nil _ rfl rfl
  | rotate now pepper =>
    cases hstep
    exact throttled_nil _ rfl rfl

theorem keyStep_max {p p' : Api Key Digest} {l : KeyLabel Key} (hstep : keyStep h p l = some p') :
    p'.store.maxFailures = p.store.maxFailures := by
  cases l with
  | issue draw wall tenant scopes =>
    cases hstep
    exact (issue_sameProcess draw wall tenant scopes p.store).max
  | present now secret clientIp =>
    simp only [keyStep] at hstep
    split at hstep
    · cases hstep
    · cases hstep
      exact (present_sameProcess now secret clientIp p.store).max
  | answer now wall a =>
    simp only [keyStep] at hstep
    split at hstep
    · cases hstep
    · cases hstep
      exact (answer_sameProcess now wall a p.store).max
  | revoke wall keyId =>
    cases hstep
    exact (revoke_sameProcess wall keyId p.store).max
  | restart now =>
    cases hstep
    rfl
  | rotate now pepper =>
    cases hstep
    rfl

/-- However secrets are guessed at one key from one address, and answers are waited for: with at
most `n` attempts under way at a time, `max_failures - 1 + n` of them fail in any minute at most. -/
theorem failures_throttled {p₀ p : Api Key Digest} {bucket : String} {times : List ℚ} {n : ℕ}
    (hfailures : p₀.store.failures bucket = []) (hattempts : p₀.attempts = [])
    {ls : List (KeyLabel Key)}
    (hrun : ((keySystem h).monitor (seeFailures h bucket)).run (p₀, []) ls = some (p, times))
    (hfew : ((keySystem h).monitor (seeFailures h bucket)).Along
      (fun _ _ m => m.1.attempts.countP (under bucket) ≤ n) (p₀, []) ls) (t₀ : ℚ) :
    times.countP (fun t => t₀ ≤ t ∧ t < t₀ + 60) ≤ p₀.store.maxFailures - 1 + n := by
  have hp : p.store.maxFailures = p₀.store.maxFailures ∧
      Throttled bucket (p₀.store.maxFailures - 1 + n) p times := by
    apply System.run_invariant_along (T := (keySystem h).monitor (seeFailures h bucket))
      (I := fun m => m.1.store.maxFailures = p₀.store.maxFailures ∧
        Throttled bucket (p₀.store.maxFailures - 1 + n) m.1 m.2) _
      ⟨rfl, throttled_nil _ hfailures hattempts⟩ hfew hrun
    intro m l m' hm hstep hguard
    obtain ⟨hkey, hseen⟩ := System.monitor_step.mp hstep
    obtain ⟨hmax, hthrottled⟩ := hm
    refine ⟨(keyStep_max hkey).trans hmax, ?_⟩
    rw [← hmax] at hthrottled ⊢
    rw [hseen]
    exact hthrottled.step hkey hguard
  exact hp.2.window t₀

def guess (token : String) : String := "rec_" ++ firstDraw.keyId ++ "." ++ token

/-- Two guesses at a time: three of them fail before the limiter closes. -/
def guesses : List (KeyLabel String) :=
  [.present 1 (guess "x") "192.0.2.1", .answer 2 2 (attemptOf (guess "x")),
    .present 3 (guess "y") "192.0.2.1", .present 3 (guess "z") "192.0.2.1",
    .answer 4 4 (attemptOf (guess "y")), .answer 5 5 (attemptOf (guess "z")),
    .present 6 (guess "x") "192.0.2.1"]

theorem failures_throttled_guesses :
    ∃ p times, ((keySystem demoHashes).monitor
        (seeFailures demoHashes (attemptOf (guess "x")).bucket)).run (demoApi, []) guesses =
        some (p, times) ∧ times = [5, 4, 2] ∧ p.attempts = [] ∧
      times.countP (fun t => 2 ≤ t ∧ t < 2 + 60) ≤ 2 - 1 + 2 := by
  have hrun : (((keySystem demoHashes).monitor
      (seeFailures demoHashes (attemptOf (guess "x")).bucket)).run (demoApi, []) guesses).map
      (fun m => (m.2, m.1.attempts)) = some ([5, 4, 2], []) := by decide +kernel
  obtain ⟨⟨p, times⟩, hm, hseen⟩ := Option.map_eq_some_iff.mp hrun
  obtain ⟨htimes, hattempts⟩ := Prod.mk.inj hseen
  have hcheck : ((keySystem demoHashes).monitor
      (seeFailures demoHashes (attemptOf (guess "x")).bucket)).check
      (fun m l => ((keySystem demoHashes).step m.1 l).all fun p =>
        p.attempts.countP (under (attemptOf (guess "x")).bucket) ≤ 2)
      (demoApi, []) guesses = true := by decide +kernel
  have hfew := System.along_mono
    (Q := fun _ _ m => m.1.attempts.countP (under (attemptOf (guess "x")).bucket) ≤ 2)
    (fun m l m' hstep hguard => by
      rw [(System.monitor_step.mp hstep).1, Option.all_some] at hguard
      exact of_decide_eq_true hguard) (System.along_of_check hcheck)
  exact ⟨p, times, hm, htimes, hattempts, failures_throttled rfl rfl hm hfew 2⟩

/-! ### What a principal may do -/

structure Resource where
  tenantId : Option String := none
  kind : Option String := none

structure Decision where
  allow : Bool
  status : ℕ := 200
  reason : String := ""
  deriving DecidableEq, Repr

def allowed : Decision := { allow := true }

def denied (reason : String) : Decision := { allow := false, status := 403, reason }

/-- `_platform_admin` -/
def isPlatformAdmin (principal : Principal) : Bool :=
  principal.hasRole "platform_admin" || "platform_admin" ∈ principal.scopes

/-- `_tenant_matches` -/
def tenantMatches (principal : Principal) (res : Resource) : Bool :=
  match res.tenantId with
  | none => true
  | some tenant => tenant = principal.tenant || isPlatformAdmin principal

/-- `_principal_may_exec` -/
def mayExec (principal : Principal) : Bool :=
  "exec" ∈ principal.scopes || "admin" ∈ principal.scopes

/-- `tenant_access` without a membership row -/
def tenantAccess (principal : Principal) : String :=
  if principal.kind = .localOperator ∨ principal.hasRole "platform_admin" = true then
    "platform_admin"
  else if "admin" ∈ principal.scopes ∨ principal.hasRole "admin" = true then "tenant_admin"
  else "operator"

/-- `may_admin_registry` of a principal alone -/
def mayAdminRegistry (principal : Principal) : Bool :=
  tenantAccess principal ∈ ["platform_admin", "tenant_admin"]

/-- A scope, and then the tenant of the resource. -/
def needsScope (scope : String) (principal : Principal) (res : Resource) : Decision :=
  if !principal.hasScope scope then denied ("missing scope: " ++ scope)
  else if !tenantMatches principal res then denied "tenant mismatch"
  else allowed

def needsPlatformAdmin (principal : Principal) : Decision :=
  if !isPlatformAdmin principal then denied "missing scope: platform_admin" else allowed

/-- The admin of a tenant, and then the tenant of the resource. -/
def needsAdmin (principal : Principal) (res : Resource) : Decision :=
  if !(principal.hasScope "admin" || principal.hasRole "admin") then denied "missing scope: admin"
  else if !tenantMatches principal res then denied "tenant mismatch"
  else allowed

def PolicyDecisionPoint.decide (principal : Principal) (action : String) (res : Resource) :
    Decision :=
  if action ∈ ["runs.create", "runs.read"] then needsScope "runs" principal res
  else if action = "runs.script" then
    if !mayExec principal then denied "script requires the 'exec' scope (or admin)" else allowed
  else if action = "runs.cancel" then
    if !principal.hasScope "runs" then denied "missing scope: runs"
    else if res.tenantId ≠ none ∧ res.tenantId ≠ some principal.tenant ∧
        isPlatformAdmin principal = false then
      { allow := false, status := 404, reason := "not found" }
    else allowed
  else if action = "runs.resume" then
    if !principal.hasScope "runs" then denied "missing scope: runs" else allowed
  else if action ∈ ["skill.promote", "skills.promote"] then
    if principal.hasScope "promote" || principal.hasRole "reviewer" then allowed
    else denied "missing scope: promote"
  else if action = "skill.promote_seed" then needsPlatformAdmin principal
  else if action ∈ ["job.run", "jobs.run"] then
    if !principal.hasScope "jobs" then denied "missing scope: jobs" else allowed
  else if action ∈ ["eval.run", "evals.run", "metrics.read"] then
    if principal.hasScope "evals" || principal.hasScope "metrics" then allowed
    else denied "missing scope: evals"
  else if action = "policy.propose" then
    if !principal.hasScope "runs" then denied "missing scope: runs" else allowed
  else if action = "policy.apply" then needsAdmin principal res
  else if action = "workspace.register" then needsPlatformAdmin principal
  else if action = "membership.grant" then needsPlatformAdmin principal
  else if action = "secret.write" then
    if res.kind = some "_platform" ∨ res.tenantId = some "_platform" then
      needsPlatformAdmin principal
    else needsAdmin principal res
  else if action ∈ ["blobs.read", "blobs.write"] then needsScope "blobs" principal res
  else if action ∈ ["skills.read", "skills.search", "jobs.read", "proposals.read",
      "programs.read", "programs.write", "workspaces.read", "policy.read", "ledger.verify"] then
    needsScope "runs" principal res
  else if action = "proposals.decide" then needsScope "runs" principal res
  else if action = "workspaces.write" then
    if !mayAdminRegistry principal then denied "missing scope: admin" else allowed
  else if action ∈ ["keys.issue", "keys.revoke", "keys.read"] then
    if !(principal.hasScope "admin" || principal.hasRole "admin" || isPlatformAdmin principal) then
      denied "missing scope: admin"
    else allowed
  else if action = "tenants.switch" then
    if isPlatformAdmin principal || principal.kind = .consoleSession then allowed
    else denied "missing scope: tenants.switch"
  else if action ∈ ["ops.backup", "ops.restore", "ops.gc", "ops.soak", "ops.tabletop",
      "ops.systems"] then needsPlatformAdmin principal
  else denied ("unknown action: " ++ action)

/-- The actions that no tenant of a resource is looked at for, and that a principal of a tenant may
be allowed. -/
def untenanted : List String :=
  ["runs.script", "runs.resume", "skill.promote", "skills.promote", "job.run", "jobs.run",
    "eval.run", "evals.run", "metrics.read", "policy.propose", "workspaces.write", "keys.issue",
    "keys.revoke", "keys.read"]

theorem deny_ite {c : Prop} [Decidable c] {a b : Decision} (ha : c → a.allow = false)
    (hb : ¬ c → b.allow = false) : (if c then a else b).allow = false := by
  split
  · exact ha ‹c›
  · exact hb ‹¬ c›

section Plain

variable {principal : Principal} (hplain : isPlatformAdmin principal = false) {res : Resource}
  {tenant : String} (hres : res.tenantId = some tenant) (hother : tenant ≠ principal.tenant)

include hplain hres hother

theorem tenantMatches_other : tenantMatches principal res = false := by
  unfold tenantMatches
  rw [hres]
  simp [hplain, hother]

theorem needsScope_other (scope : String) : (needsScope scope principal res).allow = false := by
  unfold needsScope
  rw [tenantMatches_other hplain hres hother]
  split <;> rfl

theorem needsAdmin_other : (needsAdmin principal res).allow = false := by
  unfold needsAdmin
  rw [tenantMatches_other hplain hres hother]
  split <;> rfl

omit hres hother in
theorem needsPlatformAdmin_plain : (needsPlatformAdmin principal).allow = false := by
  unfold needsPlatformAdmin
  rw [hplain]
  rfl

/-- Without the platform scope nothing is done to the resources of another tenant, but for the
actions that do not look at the tenant. -/
theorem decide_other {action : String} (hkind : principal.kind ≠ .consoleSession)
    (hout : action ∉ untenanted) :
    (PolicyDecisionPoint.decide principal action res).allow = false := by
  have hscope := needsScope_other hplain hres hother
  have hadmin := needsAdmin_other hplain hres hother
  have hplatform := needsPlatformAdmin_plain hplain
  have hin : ∀ actions : List String, (∀ a ∈ actions, a ∈ untenanted) → action ∉ actions :=
    fun actions hsub hmem => hout (hsub action hmem)
  have hne : ∀ a ∈ untenanted, action ≠ a := fun a ha heq => hout (heq ▸ ha)
  unfold PolicyDecisionPoint.decide
  -- The branches in the order of the source; those of an untenanted action are not taken.
  refine deny_ite (fun _ => hscope "runs") fun _ => ?_
  refine deny_ite (fun h => absurd h (hne _ (by decide))) fun _ => ?_
  refine deny_ite (fun _ => ?_) fun _ => ?_
  · apply deny_ite (fun _ => rfl)
    intro _
    rw [if_pos]
    rw [hres]
    exact ⟨Option.some_ne_none _, fun heq => hother (Option.some.inj heq), hplain⟩
  refine deny_ite (fun h => absurd h (hne _ (by decide))) fun _ => ?_
  refine deny_ite (fun h => absurd h (hin _ (by decide))) fun _ => ?_
  refine deny_ite (fun _ => hplatform) fun _ => ?_
  refine deny_ite (fun h => absurd h (hin _ (by decide))) fun _ => ?_
  refine deny_ite (fun h => absurd h (hin _ (by decide))) fun _ => ?_
  refine deny_ite (fun h => absurd h (hne _ (by decide))) fun _ => ?_
  refine deny_ite (fun _ => hadmin) fun _ => ?_
  refine deny_ite (fun _ => hplatform) fun _ => ?_
  refine deny_ite (fun _ => hplatform) fun _ => ?_
  refine deny_ite (fun _ => deny_ite (fun _ => hplatform) fun _ => hadmin) fun _ => ?_
  refine deny_ite (fun _ => hscope "blobs") fun _ => ?_
  refine deny_ite (fun _ => hscope "runs") fun _ => ?_
  refine deny_ite (fun _ => hscope "runs") fun _ => ?_
  refine deny_ite (fun h => absurd h (hne _ (by decide))) fun _ => ?_
  refine deny_ite (fun h => absurd h (hin _ (by decide))) fun _ => ?_
  refine deny_ite (fun _ => ?_) fun _ => ?_
  · rw [hplain, Bool.false_or, if_neg (by simpa using hkind)]
    rfl
  exact deny_ite (fun _ => hplatform) fun _ => rfl

end Plain

def platformActions : List String :=
  ["skill.promote_seed", "workspace.register", "membership.grant", "tenants.switch", "ops.backup",
    "ops.restore", "ops.gc", "ops.soak", "ops.tabletop", "ops.systems"]

/-- The actions on the platform itself. -/
def OnPlatform (action : String) (res : Resource) : Prop :=
  action ∈ platformActions ∨
    action = "secret.write" ∧ (res.kind = some "_platform" ∨ res.tenantId = some "_platform")

theorem decide_platform {principal : Principal} (hplain : isPlatformAdmin principal = false)
    (hkind : principal.kind ≠ .consoleSession) {action : String} {res : Resource}
    (haction : OnPlatform action res) :
    (PolicyDecisionPoint.decide principal action res).allow = false := by
  have hplatform := needsPlatformAdmin_plain hplain
  have hswitch : (isPlatformAdmin principal || principal.kind = .consoleSession) = false := by
    simp [hplain, hkind]
  rcases haction with haction | ⟨rfl, hres⟩
  · simp only [platformActions, List.mem_cons, List.not_mem_nil, or_false] at haction
    rcases haction with rfl | rfl | rfl | rfl | rfl | rfl | rfl | rfl | rfl | rfl
    all_goals simp [PolicyDecisionPoint.decide, hplatform, hswitch, denied]
  · simp [PolicyDecisionPoint.decide, hplatform, hres]

theorem fromApiKey_plain {keyId tenant : String} {scopes : List String}
    (h : "platform_admin" ∉ scopes) :
    isPlatformAdmin (.fromApiKey keyId tenant scopes) = false := by
  unfold isPlatformAdmin Principal.hasRole Principal.fromApiKey
  by_cases hadmin : "admin" ∈ scopes
  · simp [h, hadmin]
  · simp [h, hadmin]

/-- Over any history: whoever presents the secret of a key without the platform scope is confined to
the key's tenant and kept off the platform, whatever other scopes the key has. -/
theorem key_confined (hfree : CollisionFree h) {p₀ p : Api Key Digest} {seen₀ seen : Seen}
    (hinit : Accounted h p₀.store seen₀) {ls : List (KeyLabel Key)}
    (hrun : ((keySystem h).monitor (seeKeys h)).run (p₀, seen₀) ls = some (p, seen))
    {now wall : ℚ} {a : Attempt} {principal : Principal}
    (haccepted : (answer h now wall a p.store).2 = some principal) :
    ∃ key ∈ seen.issued, a.secret = key.secret ∧ ("platform_admin" ∉ key.scopes →
      ∀ action res, (OnPlatform action res ∨ action ∉ untenanted ∧
          ∃ tenant ≠ key.tenantId, res.tenantId = some tenant) →
        (PolicyDecisionPoint.decide principal action res).allow = false) := by
  obtain ⟨key, hkey, hsecret, -, rfl⟩ := (hinit.run hfree hrun).accepted hfree haccepted
  refine ⟨key, hkey, hsecret, fun hscopes action res haction => ?_⟩
  have hplain : isPlatformAdmin (.fromApiKey key.keyId key.tenantId (sorted key.scopes)) = false :=
    fromApiKey_plain fun hmem => hscopes (mem_sorted.mp hmem)
  have hkind : PrincipalKind.apiKey ≠ .consoleSession := by decide
  rcases haction with hplatform | ⟨hout, tenant, hother, hres⟩
  · exact decide_platform hplain hkind hplatform
  · exact decide_other hplain hres hother hkind hout

theorem key_confined_twoKeys :
    ∃ p seen principal, ((keySystem demoHashes).monitor (seeKeys demoHashes)).run (demoApi, {})
        twoKeys = some (p, seen) ∧
      (answer demoHashes 9 9 (attemptOf firstDraw.secret) p.store).2 = some principal ∧
      (PolicyDecisionPoint.decide principal "blobs.read"
        { tenantId := some "alpha" }).allow = true ∧
      ∃ key ∈ seen.issued, firstDraw.secret = key.secret ∧ ("platform_admin" ∉ key.scopes →
        ∀ action res, (OnPlatform action res ∨ action ∉ untenanted ∧
            ∃ tenant ≠ key.tenantId, res.tenantId = some tenant) →
          (PolicyDecisionPoint.decide principal action res).allow = false) := by
  have hrun : (((keySystem demoHashes).monitor (seeKeys demoHashes)).run (demoApi, {})
      twoKeys).any (fun m =>
        (answer demoHashes 9 9 (attemptOf firstDraw.secret) m.1.store).2.any fun principal =>
          (PolicyDecisionPoint.decide principal "blobs.read"
            { tenantId := some "alpha" }).allow) = true := by
    decide +kernel
  obtain ⟨⟨p, seen⟩, hm, hanswer⟩ := (Option.any_eq_true _ _).mp hrun
  obtain ⟨principal, hfirst, hallowed⟩ := (Option.any_eq_true _ _).mp hanswer
  exact ⟨p, seen, principal, hm, hfirst, hallowed,
    key_confined demoHashes_free demoApi_accounted hm hfirst⟩

end Recertia.ApiKeys
