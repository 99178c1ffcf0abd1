import Recertia.Validation.Freeze

/-! When the freeze of a workdir tells a change of the frozen paths from none. -/
namespace Recertia.Validation

open LinkTree

section Sorted

end Sorted

section Names

end Names

-- `fuel`: how far the system follows links before it gives up
variable (fuel : ℕ)

section Files

/-- The bytes of the regular file at a path below a directory. -/
def Workdir.bytesBelow (w : Workdir) (target sub : Path) : Option Bytes :=
  if sub = [] then none
  else (w.rooted.tree.get? (target ++ sub)).bind fun n => w.regularFile fuel (target ++ sub, n)

theorem Workdir.mem_rglob {w : Workdir} {target : Path} {row : Path × Node} :
    row ∈ w.rglob target ↔ ∃ sub, sub ≠ [] ∧ row.1 = target ++ sub ∧
      w.rooted.tree.get? row.1 = some row.2 := by
  rw [Workdir.rglob, List.mem_insertionSort, List.mem_filter, Bool.and_eq_true,
    List.isPrefixOf_iff_prefix, decide_eq_true_eq, Table.get?_eq_some]
  constructor
  · rintro ⟨hrow, ⟨sub, hsub⟩, hne⟩
    refine ⟨sub, ?_, hsub.symm, hrow⟩
    rintro rfl
    exact hne (by rw [← hsub, List.append_nil])
  · rintro ⟨sub, hne, hsub, hrow⟩
    refine ⟨hrow, ⟨sub, hsub.symm⟩, fun heq => hne ?_⟩
    exact List.append_cancel_left (hsub.symm.trans (heq.trans (List.append_nil target).symm))

theorem Workdir.mem_files {w : Workdir} {target p : Path} {content : Bytes} :
    (p, content) ∈ w.files fuel target ↔
      ∃ sub, p = target ++ sub ∧ w.bytesBelow fuel target sub = some content := by
  rw [Workdir.files, List.mem_filterMap]
  constructor
  · rintro ⟨row, hrow, hread⟩
    obtain ⟨sub, hne, hsub, hget⟩ := Workdir.mem_rglob.mp hrow
    obtain ⟨c, hc, heq⟩ := Option.map_eq_some_iff.mp hread
    cases heq
    refine ⟨sub, hsub, ?_⟩
    rw [Workdir.bytesBelow, if_neg hne, ← hsub, hget]
    exact hc
  · rintro ⟨sub, rfl, hread⟩
    rw [Workdir.bytesBelow] at hread
    by_cases hne : sub = []
    · rw [if_pos hne] at hread
      cases hread
    · rw [if_neg hne] at hread
      obtain ⟨n, hget, hn⟩ := Option.bind_eq_some_iff.mp hread
      exact ⟨(target ++ sub, n), Workdir.mem_rglob.mpr ⟨sub, hne, rfl, hget⟩,
        by rw [hn]; rfl⟩

theorem keys_filterMap_sublist {α β γ : Type*} {f : α × β → Option (α × γ)}
    (h : ∀ row out, f row = some out → out.1 = row.1) (rows : List (α × β)) :
    List.Sublist ((rows.filterMap f).map Prod.fst) (rows.map Prod.fst) := by
  induction rows with
  | nil => exact List.Sublist.slnil
  | cons row rows ih =>
    rw [List.filterMap_cons, List.map_cons]
    cases hrow : f row with
    | none => exact ih.cons row.1
    | some out =>
      dsimp only
      rw [List.map_cons, h row out hrow]
      exact ih.cons_cons row.1

theorem Workdir.pairwise_rglob (w : Workdir) (target : Path) :
    ((w.rglob target).map Prod.fst).Pairwise (· < ·) := by
  have hsorted : ((w.rglob target).map Prod.fst).Pairwise (· ≤ ·) := by
    rw [List.pairwise_map]
    exact List.pairwise_insertionSort _ _
  have hnodup : ((w.rglob target).map Prod.fst).Nodup := by
    rw [Workdir.rglob]
    refine ((List.perm_insertionSort _ _).map Prod.fst).nodup_iff.mpr ?_
    exact w.rooted.tree.nodup.sublist (List.filter_sublist.map Prod.fst)
  exact (hsorted.and hnodup).imp fun h => lt_of_le_of_ne h.1 h.2

/-- Listings in strict order with the same files are equal. -/
theorem eq_of_pairwise_of_mem {files files' : List (Path × Bytes)}
    (h : (files.map Prod.fst).Pairwise (· < ·)) (h' : (files'.map Prod.fst).Pairwise (· < ·))
    (hmem : ∀ f, f ∈ files ↔ f ∈ files') : files = files' := by
  have hnodup : ∀ {files : List (Path × Bytes)}, (files.map Prod.fst).Pairwise (· < ·) →
      (files.map Prod.fst).Nodup := fun h => h.imp fun hlt => ne_of_lt hlt
  have hperm := (List.perm_ext_iff_of_nodup (hnodup h).of_map (hnodup h').of_map).mpr hmem
  have hkeys := (hperm.map Prod.fst).eq_of_pairwise (fun a b _ _ hab hba => le_antisymm hab hba)
    (h.imp le_of_lt) (h'.imp le_of_lt)
  exact Json.eq_of_perm_of_keys hperm hkeys (hnodup h)

end Files

/-- What a frozen path leads to, as the run's caller sees it. -/
inductive Standing
  | away
  | missing
  | file (content : Bytes)
  | dir (bytesBelow : Path → Option Bytes)

def Workdir.standing (w : Workdir) (rel : String) : Standing :=
  match follow w.place w.rooted.tree fuel [] (targetParts rel) with
  | .inside target =>
    match w.nodeAt target with
    | none => .missing
    | some (.file content _) => .file content
    | some _ => .dir (w.bytesBelow fuel target)
  | _ => .away

/-- What is hashed for a frozen path: a directory is the list of its files, by their paths from the
root. -/
inductive Seen
  | missing
  | file (content : Bytes)
  | listing (target : Path) (files : List (Path × Bytes))
  deriving DecidableEq

def Workdir.seen (w : Workdir) (rel : String) : Option Seen :=
  match follow w.place w.rooted.tree fuel [] (targetParts rel) with
  | .inside target =>
    match w.nodeAt target with
    | none => some .missing
    | some (.file content _) => some (.file content)
    | some _ => some (.listing target (w.files fuel target))
  | _ => none

-- `sha256`: the hex digest of some bytes
variable (sha256 : Bytes → String)

def Seen.text (rel : String) : Seen → Bytes
  | .missing => utf8 ("missing:" ++ rel)
  | .file content => content
  | .listing _ files => blob sha256 files

/-- Files as a listing has them: a backslash in a name is a slash. -/
def listed (files : List (Path × Bytes)) : List (String × Bytes) :=
  files.map fun f => (relName f.1, f.2)

section Digest

theorem utf8_append (a b : String) : utf8 (a ++ b) = utf8 a ++ utf8 b := by
  simp only [utf8, String.toUTF8_eq_toByteArray, String.toByteArray_append, ByteArray.data_append,
    Array.toList_append]

end Digest

section Text

variable {sha256}

end Text

section Standing

variable {sha256}

end Standing

section Freeze

variable {sha256}

variable (sha256)

/-- A stand-in for the hash: a character for each byte. -/
def byteText (content : Bytes) : String := String.ofList (content.map fun b => Char.ofNat b.toNat)

theorem byteText_injective : Function.Injective byteText := by
  intro a b h
  have hchar : Function.Injective fun b : UInt8 => Char.ofNat b.toNat := by
    intro x y hxy
    have hvalid : ∀ b : UInt8, (Char.ofNat b.toNat).toNat = b.toNat := by
      intro b
      have hb := b.toNat_lt
      rw [Char.ofNat, dif_pos (Or.inl (by omega))]
      rfl
    have hnat := congrArg Char.toNat hxy
    dsimp only at hnat
    rw [hvalid, hvalid] at hnat
    exact UInt8.toNat_inj.mp hnat
  exact List.map_injective_iff.mpr hchar (String.ofList_injective h)

/-- A workdir of its own with these rows. -/
def workdirOf (rows : Tree) (h : rows.rows.all (standsIn .dir rows.rows) = true) : Workdir :=
  ⟨.ofRows rows h, .apart fun _ => false, fun _ => none, fun _ _ => none⟩

def noted (content : Bytes) : Workdir :=
  workdirOf ⟨[(["notes.txt"], .file content 0)], by simp⟩ (by rfl)

def plainPlatform : Graph.Platform := ⟨id, Char.isAlpha, fun _ _ => ""⟩

/-- The three modules, each as a file or as a package. -/
def imported : List (List String) :=
  ["hashlib", "json", "pathlib"].flatMap fun name => [[name ++ ".py"], [name, "__init__.py"]]

end Freeze

end Recertia.Validation
