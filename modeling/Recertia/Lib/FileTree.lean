import Mathlib.Data.List.AList

/-! Finite trees of regular files. A tree maps relative paths to contents; a path has at most one
content, and directories exist where a path runs through them. -/
namespace FileTree

abbrev Path := List String

abbrev Data := List UInt8

/-- `AList` carries the proof that no path is listed twice. -/
abbrev Tree := AList fun _ : Path => Data

def read (t : Tree) (p : Path) : Option Data := t.lookup p

def write (t : Tree) (p : Path) (d : Data) : Tree := t.insert p d

def files (t : Tree) : List (Path × Data) := t.entries.map fun e => (e.1, e.2)

def ofFiles (fs : List (Path × Data)) : Tree := fs.foldl (fun t f => write t f.1 f.2) ∅

/-- Writes the files `fs` below the directory `dir`. -/
def writeAll (t : Tree) (dir : Path) (fs : List (Path × Data)) : Tree :=
  fs.foldl (fun u f => write u (dir ++ f.1) f.2) t

/-- The files below `dir`, with paths relative to it. -/
def filesUnder (t : Tree) (dir : Path) : List (Path × Data) :=
  (files t).filterMap fun f => (f.1.dropPrefix? dir).map fun p => (p, f.2)

/-- Removes the directory `dir` and everything below it. -/
def removeTree (t : Tree) (dir : Path) : Tree :=
  ofFiles ((files t).filter fun f => !dir.isPrefixOf f.1)

/-- Whether a file or a directory stands at `p`. -/
def occupied (t : Tree) (p : Path) : Bool := (files t).any fun f => p.isPrefixOf f.1

/-- Whether the first part of a path is one of `names`. -/
def topIn (names : List String) (p : Path) : Bool :=
  match p with
  | [] => false
  | n :: _ => names.contains n

@[simp] theorem read_write_self (t : Tree) (p : Path) (d : Data) :
    read (write t p d) p = some d := AList.lookup_insert t

theorem read_write_ne (t : Tree) {p q : Path} (d : Data) (h : q ≠ p) :
    read (write t p d) q = read t q := AList.lookup_insert_ne h

theorem mem_files {t : Tree} {p : Path} {d : Data} : (p, d) ∈ files t ↔ read t p = some d := by
  unfold files read
  rw [List.mem_map, ← Option.mem_def, AList.mem_lookup_iff]
  constructor
  · rintro ⟨e, he, heq⟩
    obtain ⟨rfl, rfl⟩ := Prod.mk.inj heq
    exact he
  · intro h
    exact ⟨⟨p, d⟩, h, rfl⟩

theorem files_nodup (t : Tree) : ((files t).map Prod.fst).Nodup := by
  have hkeys : (files t).map Prod.fst = t.keys := by
    rw [files, List.map_map]
    rfl
  rw [hkeys]
  exact t.keys_nodup

theorem occupied_iff {t : Tree} {p : Path} :
    occupied t p = true ↔ ∃ rest d, read t (p ++ rest) = some d := by
  unfold occupied
  rw [List.any_eq_true]
  constructor
  · rintro ⟨⟨q, d⟩, hf, hprefix⟩
    obtain ⟨rest, rfl⟩ := List.isPrefixOf_iff_prefix.mp hprefix
    exact ⟨rest, d, mem_files.mp hf⟩
  · rintro ⟨rest, d, hread⟩
    exact ⟨(p ++ rest, d), mem_files.mpr hread,
      List.isPrefixOf_iff_prefix.mpr (List.prefix_append p rest)⟩

theorem read_empty (p : Path) : read ∅ p = none := AList.lookup_empty p

/-- No path stands in the list with two contents. -/
def Functional (fs : List (Path × Data)) : Prop :=
  ∀ p d e, (p, d) ∈ fs → (p, e) ∈ fs → d = e

theorem functional_of_nodup {fs : List (Path × Data)} (h : (fs.map Prod.fst).Nodup) :
    Functional fs := by
  intro p d e hd he
  have hpair := List.inj_on_of_nodup_map h hd he rfl
  exact congrArg Prod.snd hpair

theorem read_writeAll_of_ne {dir : Path} {fs : List (Path × Data)} {t : Tree} {q : Path}
    (h : ∀ f ∈ fs, dir ++ f.1 ≠ q) : read (writeAll t dir fs) q = read t q := by
  unfold writeAll
  induction fs generalizing t with
  | nil => rfl
  | cons f fs ih =>
    obtain ⟨hf, hfs⟩ := List.forall_mem_cons.mp h
    rw [List.foldl_cons, ih hfs, read_write_ne t f.2 (Ne.symm hf)]

theorem read_writeAll_of_mem {dir : Path} {fs : List (Path × Data)} {t : Tree} {p : Path}
    {d : Data} (hfs : Functional fs) (h : (p, d) ∈ fs) :
    read (writeAll t dir fs) (dir ++ p) = some d := by
  induction fs generalizing t with
  | nil => exact absurd h List.not_mem_nil
  | cons f fs ih =>
    have htail : Functional fs := fun p d e hd he =>
      hfs p d e (List.mem_cons_of_mem f hd) (List.mem_cons_of_mem f he)
    by_cases hlater : (p, d) ∈ fs
    · exact ih htail hlater
    · have hf : f = (p, d) := by
        rcases List.mem_cons.mp h with hf | hf
        · exact hf.symm
        · exact absurd hf hlater
      -- Another entry of this path would be the same entry again.
      have hlast : ∀ g ∈ fs, dir ++ g.1 ≠ dir ++ p := by
        intro g hg heq
        have hpath : g.1 = p := List.append_cancel_left heq
        have hdata : d = g.2 := hfs p d g.2 h (by
          rw [← hpath]
          exact List.mem_cons_of_mem f hg)
        exact hlater (by rw [hdata, ← hpath]; exact hg)
      show read (writeAll (write t (dir ++ f.1) f.2) dir fs) (dir ++ p) = some d
      rw [read_writeAll_of_ne hlast, hf, read_write_self]

theorem mem_filesUnder {t : Tree} {dir p : Path} {d : Data} :
    (p, d) ∈ filesUnder t dir ↔ read t (dir ++ p) = some d := by
  unfold filesUnder
  rw [List.mem_filterMap, ← mem_files]
  constructor
  · rintro ⟨⟨q, e⟩, hf, hmap⟩
    obtain ⟨rest, hrest, heq⟩ := Option.map_eq_some_iff.mp hmap
    obtain ⟨rfl, rfl⟩ := Prod.mk.inj heq
    obtain ⟨front, hq, hfront⟩ := List.dropPrefix?_eq_some_iff.mp hrest
    rw [← eq_of_beq hfront, ← hq]
    exact hf
  · intro h
    refine ⟨(dir ++ p, d), h, ?_⟩
    rw [List.dropPrefix?_append_of_beq p (beq_self_eq_true dir)]
    rfl

theorem read_removeTree (t : Tree) (dir p : Path) :
    read (removeTree t dir) p = if dir <+: p then none else read t p := by
  have hfun : Functional ((files t).filter fun f => !dir.isPrefixOf f.1) := by
    intro p d e hd he
    exact functional_of_nodup (files_nodup t) p d e (List.mem_of_mem_filter hd)
      (List.mem_of_mem_filter he)
  have hwrite : removeTree t dir
      = writeAll ∅ [] ((files t).filter fun f => !dir.isPrefixOf f.1) := rfl
  have hmem (d : Data) : (p, d) ∈ ((files t).filter fun f => !dir.isPrefixOf f.1) ↔
      read t p = some d ∧ ¬ dir <+: p := by
    rw [List.mem_filter, mem_files]
    simp [← List.isPrefixOf_iff_prefix]
  rw [hwrite]
  split
  · rename_i hbelow
    rw [read_writeAll_of_ne, read_empty]
    rintro ⟨q, d⟩ hf rfl
    exact ((hmem d).mp hf).2 hbelow
  · rename_i hout
    cases hread : read t p with
    | some d => exact read_writeAll_of_mem hfun ((hmem d).mpr ⟨hread, hout⟩)
    | none =>
      rw [read_writeAll_of_ne, read_empty]
      rintro ⟨q, d⟩ hf rfl
      rw [((hmem d).mp hf).1] at hread
      cases hread

end FileTree
