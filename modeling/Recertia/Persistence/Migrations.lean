import Recertia.Lib.Fallible
import Recertia.Lib.Table
import Recertia.Lib.Text

/-! The migration runner: which files a database records, what a run of `apply_migrations` applies,
and how it ends. -/
namespace Recertia.Persistence

/-- A migration with its text and the hash of its bytes. -/
structure MigrationFile where
  name : String
  text : String
  digest : String
  digest_ne : digest ≠ ""

/-- `_migration_id` -/
def MigrationFile.version (file : MigrationFile) : String :=
  match (file.text.toList.splitOnP Text.isLineBreak).find? "-- id:".toList.isPrefixOf with
  | some line => String.ofList (Text.stripChars Text.isSpace ((line.dropWhile (· ≠ ':')).drop 1))
  | none => String.ofList (file.name.toList.takeWhile (· ≠ '.'))

/-- `schema_migrations` as there is none, as the old runner made it, and as it is now. -/
inductive Records
  | missing
  | unchecked (versions : Table String Unit)
  | checked (rows : Table String (Option String))

structure Db (σ : Type*) where
  records : Records
  data : σ

/-- What the runner uses of SQLite: `complete_statement`, and the execution of a statement inside the
open transaction. -/
structure Sqlite (σ : Type*) where
  completeStatement : List Char → Bool
  execute : String → Db σ → Except String (Db σ)

inductive MigrateError
  /-- `MigrationError` -/
  | refused (version keyword : String)
  /-- `MigrationChecksumError` -/
  | checksum (version : String)
  /-- an error of SQLite -/
  | sqlite (message : String)
  deriving DecidableEq, Repr

/-! ### Statements -/

/-- The stripped text, unless nothing is left of it. -/
def stripped? (text : List Char) : List String :=
  if Text.stripChars Text.isSpace text = [] then []
  else [String.ofList (Text.stripChars Text.isSpace text)]

/-- `_statements`; `start` is the text since the last statement. -/
def statementsFrom (complete : List Char → Bool) (start : List Char) : List Char → List String
  | [] => stripped? start
  | char :: script =>
    if char = ';' ∧ complete (start ++ [char]) then
      stripped? (start ++ [char]) ++ statementsFrom complete [] script
    else statementsFrom complete (start ++ [char]) script

inductive Trivia
  | blank | line | block

/-- `_LEADING_TRIVIA`: blanks and comments, the last of which may be open. -/
def dropTrivia : Trivia → List Char → List Char
  | .blank, '-' :: '-' :: cs => dropTrivia .line cs
  | .blank, '/' :: '*' :: cs => dropTrivia .block cs
  | .blank, c :: cs => if Text.isSpace c then dropTrivia .blank cs else c :: cs
  | .line, c :: cs => dropTrivia (if c = '\n' then .blank else .line) cs
  | .block, '*' :: '/' :: cs => dropTrivia .blank cs
  | .block, _ :: cs => dropTrivia .block cs
  | _, [] => []

def dropWord? (word : String) (text : List Char) : Option (List Char) :=
  (text.map Char.toLower).dropPrefix? (word.toList.map Char.toLower) |>.map fun rest =>
    text.drop (text.length - rest.length)

def isWordChar (c : Char) : Bool := c.isAlphanum || c = '_' || 0x80 ≤ c.toNat

/-- What may stand in the name of a schema: word characters and quotes. -/
def isSchemaChar (c : Char) : Bool :=
  isWordChar c || c = '"' || c.toNat = 0x60 || c = '[' || c = ']'

def isJournalMode (text : List Char) : Bool :=
  (dropWord? "journal_mode" text).any fun rest => !(rest.head?.any isWordChar)

/-- `_PRAGMA_JOURNAL_MODE` -/
def isPragmaJournalMode (body : List Char) : Bool :=
  (dropWord? "PRAGMA" body).any fun rest =>
    let name := rest.dropWhile Text.isSpace
    rest.head?.any Text.isSpace && (isJournalMode name ||
      (name.head?.any isSchemaChar &&
        match (name.dropWhile isSchemaChar).dropWhile Text.isSpace with
        | '.' :: rest => isJournalMode (rest.dropWhile Text.isSpace)
        | _ => false))

def transactionKeywords : List String :=
  ["BEGIN", "COMMIT", "END", "ROLLBACK", "SAVEPOINT", "RELEASE", "VACUUM"]

def forbiddenKeyword (statement : String) : Option String :=
  let body := dropTrivia .blank statement.toList
  if isPragmaJournalMode body then some "PRAGMA journal_mode"
  else
    let word := String.ofList ((body.takeWhile fun c => c.isAlpha || c = '_').map Char.toUpper)
    if word ∈ transactionKeywords then some word else none

variable {σ : Type*} (sqlite : Sqlite σ)

def MigrationFile.statements (file : MigrationFile) : List String :=
  statementsFrom sqlite.completeStatement [] file.text.toList

def MigrationFile.forbidden (file : MigrationFile) : Option MigrateError :=
  (file.statements sqlite).findSome? fun statement =>
    (forbiddenKeyword statement).map (.refused file.version)

/-- `_check_statements` -/
def checkStatements (files : List MigrationFile) : Except MigrateError Unit :=
  (files.findSome? (MigrationFile.forbidden sqlite)).elim (.ok ()) .error

/-! ### The records -/

/-- `_ensure_migrations_table` -/
def Records.ensured : Records → Table String (Option String)
  | .missing => .empty
  | .unchecked versions => versions.mapValues fun _ => none
  | .checked rows => rows

/-- `_recorded` -/
def Records.recorded : Records → Option (Table String (Option String))
  | .checked rows => some rows
  | _ => none

/-- `in (None, "")` -/
def isBlank (checksum : Option String) : Bool := checksum = none || checksum = some ""

/-- The row that a file adds when its statements have run. -/
def record (file : MigrationFile) (db : Db σ) : Except String (Db σ) :=
  match db.records with
  | .checked rows =>
    match rows.insert file.version (some file.digest) with
    | some rows => .ok { db with records := .checked rows }
    | none => .error "UNIQUE constraint failed: schema_migrations.version"
  | .unchecked _ => .error "table schema_migrations has no column named checksum"
  | .missing => .error "no such table: schema_migrations"

/-- The checksum of a file that the old runner recorded without one. -/
def backfill (file : MigrationFile) (db : Db σ) : Except String (Db σ) :=
  match db.records with
  | .checked rows =>
    .ok { db with records := .checked (rows.update (fun version _ => version = file.version)
      fun _ => some file.digest) }
  | .unchecked _ => .error "no such column: checksum"
  | .missing => .error "no such table: schema_migrations"

/-! ### A run -/

/-- `_needs_write` -/
def needsWriteRows (rows : Table String (Option String)) :
    List MigrationFile → Except MigrateError Bool
  | [] => .ok false
  | file :: files =>
    match rows.get? file.version with
    | none => .ok true
    | some checksum =>
      if isBlank checksum then .ok true
      else if checksum ≠ some file.digest then .error (.checksum file.version)
      else needsWriteRows rows files

def needsWrite (files : List MigrationFile) (records : Records) : Except MigrateError Bool :=
  match records.recorded with
  | none => .ok true
  | some rows => needsWriteRows rows files

def runStatements (statements : List String) (db : Db σ) : Except String (Db σ) :=
  statements.foldlM (fun db statement => sqlite.execute statement db) db

/-- What a run has applied, and the file whose checksum has changed. -/
structure Applied where
  newly : List String
  mismatch : Option String
  deriving DecidableEq, Repr

/-- The loop of `apply_migrations`, which decides by the rows at its start. -/
def migrateFiles (appliedRows : Table String (Option String)) :
    List MigrationFile → List String → Db σ → Except String (Db σ × Applied)
  | [], newly, db => .ok (db, ⟨newly, none⟩)
  | file :: files, newly, db =>
    match appliedRows.get? file.version with
    | none => do
      let db ← runStatements sqlite (file.statements sqlite) db
      let db ← record file db
      migrateFiles appliedRows files (newly ++ [file.version]) db
    | some previous =>
      if isBlank previous then do
        let db ← backfill file db
        migrateFiles appliedRows files newly db
      else if previous ≠ some file.digest then .ok (db, ⟨newly, some file.version⟩)
      else migrateFiles appliedRows files newly db

/-- From `BEGIN IMMEDIATE` to `COMMIT`. -/
def lockedPass (files : List MigrationFile) (db : Db σ) : Except MigrateError (Db σ × Applied) :=
  let rows := db.records.ensured
  (migrateFiles sqlite rows files [] { db with records := .checked rows }).mapError .sqlite

def Applied.outcome (applied : Applied) : Except MigrateError (List String) :=
  applied.mismatch.elim (.ok applied.newly) fun version => .error (.checksum version)

/-- `apply_migrations`: its answer, and the database behind it. -/
def applyMigrations (files : List MigrationFile) (db : Db σ) :
    Except MigrateError (List String) × Db σ :=
  match checkStatements sqlite files with
  | .error e => (.error e, db)
  | .ok () =>
    match needsWrite files db.records with
    | .error e => (.error e, db)
    | .ok false => (.ok [], db)
    | .ok true =>
      match lockedPass sqlite files db with
      | .error e => (.error e, db)
      | .ok (db', applied) => (applied.outcome, db')

end Recertia.Persistence
