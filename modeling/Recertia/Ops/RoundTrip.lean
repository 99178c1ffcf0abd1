import Recertia.Ops.Backup

/-! For which home trees a backup is made, verified and restored to what it was made of. -/
namespace Recertia.Ops

open LinkTree TarArchive

variable {Digest : Type} {s : Setting Digest} {home : Disk}

section Rows

end Rows

section Verify

variable {rows : List (Path × Stat)}

/-- A further name of a file, which the archive has as a link to the first, and whose text has to
pass for the file's content. -/
def HardLinksPass (s : Setting Digest) (rows : List (Path × Stat)) : Prop :=
  ∀ before p inode content after, rows = before ++ (p, .file inode content) :: after →
    ∀ first, firstName before inode = some first → s.encodes ("/".intercalate first) = true ∧
      s.sha256 (encode ("/".intercalate first)) = s.sha256 content ∧
        (encode ("/".intercalate first)).length = content.length

end Verify

section Restore

/-- The logical content of the SQLite database at a path, if there is one. -/
def heldBy (s : Setting Digest) (t : Tree) (p : Path) : Option s.sqlite.Logical :=
  match t.get? p with
  | some (.file content _) => s.sqlite.logical content (walOf t p)
  | _ => none

def IsSidecar (s : Setting Digest) (home : Disk) (p : Path) : Prop :=
  ∃ q, heldBy s home.rooted.tree q ≠ none ∧
    (p = q.dropLast ++ [nameOf q ++ "-wal"] ∨ p = q.dropLast ++ [nameOf q ++ "-shm"])

/-- The manifest of the root, the lock files, and the sidecars of SQLite databases. -/
def Exempt (s : Setting Digest) (home : Disk) (p : Path) : Prop :=
  p = [manifestName] ∨ isLockFile p = true ∨ IsSidecar s home p

/-- A restored tree has what the home tree had, but for what is exempt. -/
structure Reproduces (s : Setting Digest) (home : Disk) (t : Tree) : Prop where
  files : ∀ p content mtime, home.rooted.tree.get? p = some (.file content mtime) →
    ¬ Exempt s home p → heldBy s home.rooted.tree p = none →
    ∃ mtime', t.get? p = some (.file content mtime')
  databases : ∀ p held, heldBy s home.rooted.tree p = some held → ¬ Exempt s home p →
    heldBy s t p = some held
  links : ∀ p target, home.rooted.tree.get? p = some (.link target) → ¬ Exempt s home p →
    t.get? p = some (.link target)

/-- What is reproduced is a file or a link again. -/
theorem Reproduces.there {t : Tree} (h : Reproduces s home t) {p : Path} {n : Node}
    (hn : home.rooted.tree.get? p = some n) (hdir : n ≠ .dir) (hexempt : ¬ Exempt s home p) :
    t.get? p ≠ none ∧ t.get? p ≠ some .dir := by
  cases n with
  | dir => exact absurd rfl hdir
  | link target =>
    rw [h.links p target hn hexempt]
    exact ⟨by simp, by simp⟩
  | file content mtime =>
    cases hheld : heldBy s home.rooted.tree p with
    | none =>
      obtain ⟨mtime', hfile⟩ := h.files p content mtime hn hexempt hheld
      rw [hfile]
      exact ⟨by simp, by simp⟩
    | some held =>
      have hback := h.databases p held hheld hexempt
      rw [heldBy] at hback
      split at hback
      · rename_i content' mtime' hfile
        rw [hfile]
        exact ⟨by simp, by simp⟩
      · cases hback

variable {rows : Table Path Stat} (hrows : archiveRows s home = some rows.rows)
include hrows

section Locked

variable (hlocks : home.rooted.tree.get? ["api.lock"] ≠ some .dir ∧
  home.rooted.tree.get? [".lock"] ≠ some .dir)
include hlocks

end Locked

end Restore

/-- The home trees that come back from a backup. -/
structure Recoverable (s : Setting Digest) (home : Disk) : Prop where
  locks : opensLock s home.rooted.tree "api.lock" = true ∧
    opensLock s home.rooted.tree ".lock" = true
  databases : ∀ p content mtime, home.rooted.tree.get? p = some (.file content mtime) →
    leavesOut p = false → isSqliteDb p = true →
    s.sqlite.Copied content (walOf home.rooted.tree p)
  plain : ∀ p content mtime held, home.rooted.tree.get? p = some (.file content mtime) →
    leavesOut p = false → isSqliteDb p = false → heldBy s home.rooted.tree p = some held →
    s.sqlite.logical content none = some held
  leftOut : ∀ p n, home.rooted.tree.get? p = some n → n ≠ .dir → leavesOut p = true →
    Exempt s home p
  names : ∀ p n, home.rooted.tree.get? p = some n → n ≠ .dir → leavesOut p = false →
    isLockFile (normalizedMember p) = false ∧ [manifestName] ∉ upper p
  targets : ∀ p target, home.rooted.tree.get? p = some (.link target) → leavesOut p = false →
    s.encodes target = true
  hardLinks : ∀ rows, archiveRows s home = some rows → HardLinksPass s rows
  links : ∀ rows, archiveRows s home = some rows → ∀ before p target after,
    rows = before ++ (p, .link target) :: after →
    letsLink s.filter s.place s.fuel (before.foldl (stage s.filter) lockedRoot) p target = true ∧
      s.filter.linkname target = target

section Rows

variable {rows : Table Path Stat} (hrows : archiveRows s home = some rows.rows)
include hrows

end Rows

section Recovered

variable (h : Recoverable s home) {rows : Table Path Stat}
  (hrows : archiveRows s home = some rows.rows)
include h hrows

end Recovered

/-- A database here is sixteen bytes of header, its pages and what its log adds to them; the
first two bytes of a page are its size. -/
def headerSqlite : Sqlite where
  Logical := Bytes
  logical := fun main wal =>
    if main.take 16 = encode "SQLite format 3\x00" then some (main.drop 16 ++ wal.getD [])
    else none
  pageSize := fun main _ => 256 * (main.getD 16 0).toNat + (main.getD 17 0).toNat
  newPageSize := 4096
  onlineBackup := fun main wal =>
    if main.take 16 = encode "SQLite format 3\x00" ∧
        256 * (main.getD 16 0).toNat + (main.getD 17 0).toNat = 4096 then
      some (main ++ wal.getD [])
    else none
  onlineBackup_none := by
    intro main wal h
    split at h
    · cases h
    · rename_i hno
      exact if_neg fun hmain => hno hmain.1
  onlineBackup_resized := fun _ _ hpages => if_neg fun hmain => hpages hmain.2
  onlineBackup_some := by
    intro main wal held h hpages
    split at h
    · rename_i hmain
      have hlength : (encode "SQLite format 3\x00").length = 16 := by decide +kernel
      have hlong : 16 ≤ main.length := by
        rw [← hlength, ← hmain, List.length_take]
        exact Nat.min_le_right _ _
      have htake : (main ++ wal.getD []).take 16 = main.take 16 :=
        List.take_append_of_le_length hlong
      refine ⟨main ++ wal.getD [], if_pos ⟨hmain, hpages⟩, ?_⟩
      rw [if_pos (htake.trans hmain), List.drop_append_of_le_length hlong]
      simpa using h
    · cases h

def plainSetting : Setting Bytes where
  sqlite := headerSqlite
  sha256 := id
  manifestBytes := fun _ => []
  escapes := fun _ => false
  opensLink := fun _ => true
  filter := ⟨true, fun _ _ => false⟩
  place := .apart fun _ => true
  fuel := 9

end Recertia.Ops
