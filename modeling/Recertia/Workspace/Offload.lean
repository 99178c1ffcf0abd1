import Recertia.Lib.TarArchive

/-! Idle workspaces packed and restored (`workspace/offload.py`, the pause and the resume of
`graph/engine.py`), write by write. -/
namespace Recertia.Offload

open LinkTree TarArchive

/-- A run's workdir at a pause; special files stand beside its directories, files and links. -/
structure Workdir where
  disk : Disk
  special : Table Path Special
  proper : ∀ p kind, special.get? p = some kind → p ≠ []
  apart : ∀ p kind, special.get? p = some kind → disk.rooted.tree.get? p = none

structure Contents where
  tree : Tree
  special : Table Path Special

def Workdir.contents (d : Workdir) : Contents := ⟨d.disk.rooted.tree, d.special⟩

/-- The same paths, types, bytes and link targets. -/
def Contents.Same (a b : Contents) : Prop :=
  LinkTree.Same a.tree b.tree ∧ ∀ p, a.special.get? p = b.special.get? p

def Contents.paths (c : Contents) : List Path := c.tree.keys ++ c.special.keys

def Contents.without (c : Contents) (gone : List Path) : Contents :=
  ⟨c.tree.delete fun p _ => gone.contains p, c.special.delete fun p _ => gone.contains p⟩

def Workdir.rows (d : Workdir) : List (Path × Stat) :=
  d.disk.rows ++ d.special.rows.map fun row => (row.1, .special row.2)

/-- What `tar.add` goes through: the workdir as `tree`, depth first by sorted names, which is the
order of the paths. -/
def Workdir.packed (d : Workdir) : List (Path × Stat) :=
  (["tree"], .dir) :: (d.rows.insertionSort fun a b => a.1 ≤ b.1).map fun row =>
    ("tree" :: row.1, row.2)

inductive ArchiveFile
  | torn
  | whole (members : List Member)
  deriving DecidableEq

/-- What a restore reads of an `OffloadHandle`; the archive's name is the run's. -/
structure Handle (Digest : Type) where
  sha256 : Digest

inductive Sidecar (Digest : Type)
  | torn
  | handle (handle : Handle Digest)

/-- The files of one run and what the engine keeps in memory for it. -/
structure World (Digest : Type) where
  workdir : Option Contents
  archive : Option ArchiveFile
  sidecar : Option (Sidecar Digest)
  memory : Option (Handle Digest)
  staging : Option Tree

/-- `inside`: the packs stand in the workdir itself. `order`: what `shutil.rmtree` lists. -/
structure Setting (Digest : Type) where
  sha256 : ArchiveFile → Digest
  filter : Filter
  place : Place
  fuel : ℕ
  enabled : Bool
  inside : Bool
  order : Contents → List Path
  order_perm : ∀ c, (order c).Perm c.paths

variable {Digest : Type} (s : Setting Digest)

/-- The contents after each removal of `shutil.rmtree`, but for the last one. -/
def rmtree (c : Contents) : List Contents := ((s.order c).inits.drop 1).map c.without

def Workdir.archive (d : Workdir) : ArchiveFile := .whole (addAll [] d.packed)

/-- `_maybe_offload_idle`: the worlds from the call to its end, one write apart. With the packs in
the workdir the archive is gone as well, and its `stat()` raises. -/
def offloadIdle (d : Workdir) (w : World Digest) : List (World Digest) :=
  if s.enabled then
    let opened := { w with archive := some .torn }
    let written := { w with archive := some d.archive }
    let removing := (rmtree s d.contents).map fun c => { written with workdir := some c }
    if s.inside then
      [w, opened, written] ++ removing ++ [{ written with workdir := none, archive := none }]
    else
      let handle : Handle Digest := ⟨s.sha256 d.archive⟩
      let gone := { written with workdir := none }
      let held := { gone with memory := some handle }
      [w, opened, written] ++ removing ++ [gone, held, { held with sidecar := some .torn },
        { held with sidecar := some (.handle handle) }]
  else [w]

variable [DecidableEq Digest]

/-- `WorkingSetOffload.restore`: the worlds of its writes, and whether it returns. What a cut
leaves in the staging directory is told by the cut. -/
def restore (handle : Handle Digest) (w : World Digest) : List (World Digest) × Bool :=
  match w.archive with
  | none => ([], false)
  | some file =>
    if s.sha256 file = handle.sha256 then
      match file with
      | .torn => ([{ w with staging := some .empty }], false)
      | .whole members =>
        let extracted := extractall s.filter s.place s.fuel .empty members
        let staged := { w with staging := some extracted.1 }
        if extracted.2 then
          let removing := (w.workdir.elim [] (rmtree s)).map fun c =>
            { staged with workdir := some c }
          let cleared := { staged with workdir := none }
          let renamed := { cleared with
            workdir := some ⟨subtree extracted.1 "tree", .empty⟩, staging := some .empty }
          ([staged] ++ removing ++ [cleared, renamed, { renamed with staging := none }], true)
        else ([staged], false)
    else ([], false)

/-- `_maybe_restore_idle`: the worlds from the call to its end, and whether it returns. -/
def restoreIdle (w : World Digest) : List (World Digest) × Bool :=
  let found (handle : Handle Digest) :=
    let restored := restore s handle w
    if restored.2 then
      let popped := { restored.1.getLast?.getD w with memory := none }
      (w :: restored.1 ++ [popped, { popped with sidecar := none }], true)
    else (w :: restored.1, false)
  match w.memory, w.sidecar with
  | some handle, _ => found handle
  | none, some (.handle handle) => found handle
  | none, some .torn => ([w], false)
  | none, none => ([w], true)

/-- The world of a later process. -/
def World.crash (w : World Digest) (staging : Option Tree) : World Digest :=
  { w with memory := none, staging := staging }

/-- A run's world before its pause. -/
def start (d : Workdir) (archive : Option ArchiveFile) (staging : Option Tree) : World Digest :=
  ⟨some d.contents, archive, none, none, staging⟩

/-- The worlds after a pause that was cut after some of its writes, or ended, and after any
resumes since that were cut or raised. -/
inductive After (d : Workdir) (w₀ : World Digest) : ℕ → World Digest → Prop
  | paused {k w} : (offloadIdle s d w₀)[k]? = some w → k + 1 = (offloadIdle s d w₀).length →
      After d w₀ k w
  | cut {k w} (staging) : (offloadIdle s d w₀)[k]? = some w → After d w₀ k (w.crash staging)
  | resumeCut {k w w'} (staging) : After d w₀ k w → w' ∈ (restoreIdle s w).1 →
      After d w₀ k (w'.crash staging)
  | raised {k w w'} : After d w₀ k w → (restoreIdle s w).2 = false →
      (restoreIdle s w).1.getLast? = some w' → After d w₀ k w'

/-- The next resume ends with the workdir of the pause in place. -/
def Kept (d : Workdir) (w : World Digest) : Prop :=
  (restoreIdle s w).2 = true ∧ ∃ w' c, (restoreIdle s w).1.getLast? = some w' ∧
    w'.workdir = some c ∧ c.Same d.contents

end Recertia.Offload
