import Recertia.Retrieval.FailedWrite

/-! When the mirrored embeddings answer as those that are loaded from the database. -/
namespace Recertia.Retrieval

open Skill (SkillRef)
open ImplicitTx Transition

section Mirror
variable {W : Type*} (m : Machine W)
variable {V : Type*} (embed : String → V) (cosine : V → V → ℚ)

def indexSystem : System (SkillIndex V) (IndexCall × Option Fault) where
  step s call := some (s.step m embed call)

/-- Every vector search answers as after the mirror is dropped. -/
def SkillIndex.MirrorInvisible (s : SkillIndex V) : Prop :=
  ∀ query k qEmb, (s.vectorTopK embed cosine query k qEmb).1 =
    (s.unloadEmbeddings.vectorTopK embed cosine query k qEmb).1

/-- The embeddings of the contents are already those that the first `n` statements leave. -/
def IndexWrite.EmbeddingsHeld : IndexWrite → ℕ → Content → Prop
  | .rebuild rows _, n, c =>
    1 ≤ n → c.embeddings embed = (indexed (rows.take (n - 3))).mapValues fun row =>
      embed row.document
  | .upsert row _, n, c =>
    (2 ≤ n → n < 4 → row.ref ∉ c.skills.keys) ∧
      (4 ≤ n → (c.embeddings embed).rows.getLast? = some (row.ref, embed row.document))

/-- An upsert of a version that is new or the last of the table. -/
def IndexWrite.InPlace : IndexWrite → Content → Prop
  | .rebuild .., _ => True
  | .upsert row _, c => row.ref ∉ c.skills.keys ∨ c.skills.keys.getLast? = some row.ref

/-- What a call may do on a warm mirror: return from a rebuild, or from an upsert of a version that
is new or the last of the table, or raise where that does not change the embeddings. -/
def SkillIndex.MirrorKept (s : SkillIndex V) : IndexCall × Option Fault → Prop
  | (.write w, fault) =>
    s.embCache.isSome →
      if (s.write m embed w fault).2 then w.InPlace s.conn.live
      else if rolledBack (Content.exec m) w.stmts fault s.conn.live then
        s.conn.committed.embeddings embed = s.conn.live.embeddings embed
      else w.EmbeddingsHeld embed
        (completed (Content.exec m) w.stmts (fault.map Fault.position) s.conn.live) s.conn.live
  | _ => True

/-- A warm mirror is what a scan of the table would load. -/
def SkillIndex.InSync (s : SkillIndex V) : Prop :=
  ∀ embeddings, s.embCache = some embeddings → embeddings = s.conn.live.embeddings embed

variable {embed} in
theorem SkillIndex.InSync.invisible {s : SkillIndex V} (h : s.InSync embed) :
    s.MirrorInvisible embed cosine := by
  intro query k qEmb
  have hsame : s.embeddings embed = s.unloadEmbeddings.embeddings embed := by
    rw [SkillIndex.embeddings, SkillIndex.embeddings]
    cases hcache : s.embCache with
    | none => rfl
    | some embeddings => exact h embeddings hcache
  rw [SkillIndex.vectorTopK, SkillIndex.vectorTopK, hsame]

theorem keys_embeddings (c : Content) : (c.embeddings embed).keys = c.skills.keys := by
  rw [Content.embeddings, Table.keys, Table.mapValues, List.map_map]
  rfl

theorem write_embCache (s : SkillIndex V) (w : IndexWrite) (fault : Option Fault) :
    (s.write m embed w fault).1.embCache =
      if (s.write m embed w fault).2 then w.mirror embed s.embCache else s.embCache := rfl

/-- What a write that raises leaves of the embeddings. -/
theorem embeddings_held {w : IndexWrite} {n : ℕ} {c : Content} (h : w.EmbeddingsHeld embed n c) :
    (after (Content.exec m) (w.stmts.take n) c).embeddings embed = c.embeddings embed := by
  cases w with
  | rebuild rows fingerprint =>
    rw [after_take_rebuild, Content.embeddings]
    dsimp only
    split
    · rename_i hn
      exact (h hn).symm
    · rfl
  | upsert row fingerprint =>
    obtain ⟨hnew, hlast⟩ := h
    rw [after_take_upsert, Content.embeddings]
    dsimp only
    split
    · rename_i h4
      rw [Table.mapValues_reinsert]
      exact Table.reinsert_eq_self.mpr (hlast h4)
    · rename_i h4
      split
      · rename_i h2
        rw [Table.delete_eq_self.mpr (hnew h2 (by omega))]
        rfl
      · rfl

theorem write_returned_live {s : SkillIndex V} {w : IndexWrite} {fault : Option Fault}
    (h : (s.write m embed w fault).2 = true) :
    (s.write m embed w fault).1.conn.live =
      after (Content.exec m) (w.stmts.take w.stmts.length) s.conn.live := by
  rw [List.take_length]
  exact congrArg Conn.live (call_returned h)

/-- An upsert that returns moves the embedding of its version to the end of the scan. -/
theorem upsert_returned_embeddings {s : SkillIndex V} {row : Row} {fingerprint : Option String}
    {fault : Option Fault} (h : (s.write m embed (.upsert row fingerprint) fault).2 = true) :
    (s.write m embed (.upsert row fingerprint) fault).1.conn.live.embeddings embed =
      ((s.conn.live.embeddings embed).delete fun k _ => k = row.ref).insertOrIgnore row.ref
        (embed row.document) := by
  have hlong : 4 ≤ (IndexWrite.upsert row fingerprint).stmts.length := by
    simp only [IndexWrite.stmts, List.length_append, List.length_cons]
    omega
  rw [write_returned_live m embed h, after_take_upsert, Content.embeddings]
  dsimp only
  rw [if_pos hlong, Table.mapValues_reinsert]
  rfl

/-- A write that returns leaves a mirror in sync where the version keeps its place. -/
theorem write_returned_inSync {s : SkillIndex V} {w : IndexWrite} {fault : Option Fault}
    (hs : s.InSync embed) (hreturned : (s.write m embed w fault).2 = true)
    (h : s.embCache.isSome → w.InPlace s.conn.live) :
    (s.write m embed w fault).1.InSync embed := by
  intro embeddings hcache
  rw [write_embCache, if_pos hreturned] at hcache
  cases w with
  | rebuild rows fingerprint => cases hcache
  | upsert row fingerprint =>
    obtain ⟨before, hbefore, rfl⟩ := Option.map_eq_some_iff.mp hcache
    have hplace := h (hbefore ▸ rfl)
    rw [upsert_returned_embeddings m embed hreturned, hs before hbefore]
    apply Table.upsert_eq_reinsert_iff.mpr
    rw [keys_embeddings]
    exact hplace

/-- A write that raises leaves a mirror in sync where it does not change the embeddings. -/
theorem write_raised_inSync {s : SkillIndex V} {w : IndexWrite} {fault : Option Fault}
    (hs : s.InSync embed) (hraised : (s.write m embed w fault).2 = false)
    (h : s.embCache.isSome →
      if rolledBack (Content.exec m) w.stmts fault s.conn.live then
        s.conn.committed.embeddings embed = s.conn.live.embeddings embed
      else w.EmbeddingsHeld embed
        (completed (Content.exec m) w.stmts (fault.map Fault.position) s.conn.live) s.conn.live) :
    (s.write m embed w fault).1.InSync embed := by
  intro embeddings hcache
  rw [(write_raised m embed hraised).2] at hcache
  have hkept := h (hcache ▸ rfl)
  rw [hs embeddings hcache, write_raised_live m embed hraised]
  split
  · rename_i hrolled
    rw [if_pos hrolled] at hkept
    exact hkept.symm
  · rename_i hrolled
    rw [if_neg hrolled] at hkept
    exact (embeddings_held m embed hkept).symm

theorem warm_inSync {s : SkillIndex V} (hs : s.InSync embed) : (s.warm embed).InSync embed := by
  intro embeddings hcache
  change some (s.embeddings embed) = some embeddings at hcache
  change embeddings = s.conn.live.embeddings embed
  rw [← Option.some.inj hcache, SkillIndex.embeddings]
  cases hbefore : s.embCache with
  | none => rfl
  | some before => exact hs before hbefore

theorem scanFailed_embCache (s : SkillIndex V) (fault : Fault) :
    (s.scanFailed fault).embCache = s.embCache := by
  unfold SkillIndex.scanFailed
  split <;> rfl

/-- A call that keeps the mirror leaves it in sync. -/
theorem step_inSync {s : SkillIndex V} {call : IndexCall × Option Fault}
    (hs : s.InSync embed) (h : s.MirrorKept m embed call) :
    (s.step m embed call).InSync embed := by
  obtain ⟨call, fault⟩ := call
  cases call with
  | write w =>
    cases hreturned : (s.write m embed w fault).2 with
    | true =>
      apply write_returned_inSync m embed hs hreturned
      intro hwarm
      have hkept := h hwarm
      rwa [if_pos hreturned] at hkept
    | false =>
      apply write_raised_inSync m embed hs hreturned
      intro hwarm
      have hkept := h hwarm
      rwa [if_neg (ne_true_of_eq_false hreturned)] at hkept
  | unloadEmbeddings =>
    intro embeddings hcache
    cases hcache
  | search =>
    cases fault with
    | none => exact warm_inSync embed hs
    | some fault =>
      rw [SkillIndex.step]
      split
      · exact hs
      · rename_i hcold
        intro embeddings hcache
        rw [scanFailed_embCache] at hcache
        exact absurd (hcache ▸ rfl) hcold

/-- In a run from a cold mirror whose calls keep it, the mirror is invisible in every state. -/
theorem mirror_invisible {s : SkillIndex V} {calls : List (IndexCall × Option Fault)}
    (hcold : s.embCache = none)
    (h : (indexSystem m embed).Along (fun s call _ => s.MirrorKept m embed call) s calls) :
    (indexSystem m embed).Along (fun _ _ t => t.MirrorInvisible embed cosine) s calls := by
  apply System.along_of_invariant (I := fun s => s.InSync embed) _ _ _ h
  · rintro s call t hs ht hkept
    cases ht
    exact step_inSync m embed hs hkept
  · rintro s call t hs ht hkept
    cases ht
    exact (step_inSync m embed hs hkept).invisible cosine
  · intro embeddings hcache
    rw [hcold] at hcache
    cases hcache

/-! ### A version that loses its place -/

end Mirror

/-- All documents alike. -/
def alike (_ : String) : ℚ := 1

def twoSkills : Content where
  skills := indexed [plainRow "bump-dep" "tidy", plainRow "lint" "tidy"]
  fts := [ftsRow (plainRow "bump-dep" "tidy"), ftsRow (plainRow "lint" "tidy")]

def coldIndex : SkillIndex ℚ := ⟨⟨twoSkills, twoSkills⟩, none⟩

/-- A new version on a warm mirror. -/
theorem new_version_invisible :
    (indexSystem twoDirs alike).Along (fun _ _ t => t.MirrorInvisible alike (· * ·)) coldIndex
      [(.search, none), (.write (.upsert (plainRow "fix-ci" "tidy") none), none)] := by
  apply mirror_invisible twoDirs alike (· * ·) rfl
  rintro s hs
  refine ⟨trivial, fun t ht => ⟨fun _ => ?_, trivial⟩⟩
  cases hs
  rw [if_pos (by decide +kernel)]
  exact .inl (by decide +kernel)

/-- The first of two equal documents indexed again on a warm mirror. -/
theorem reindexed_version_visible : ¬ ∀ calls,
    (indexSystem twoDirs alike).Along (fun _ _ t => t.MirrorInvisible alike (· * ·)) coldIndex
      calls := by
  intro h
  have hrun := h [(.search, none), (.write (.upsert (plainRow "bump-dep" "tidy") none), none)]
  have hfirst := ((hrun _ rfl).2 _ rfl).1 "tidy" 1 none
  exact absurd hfirst (by decide +kernel)

end Recertia.Retrieval
