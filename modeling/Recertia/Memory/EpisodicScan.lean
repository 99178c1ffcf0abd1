import Recertia.Memory.Episodic

/-! When the lookups of the case index are those of a scan of the file. -/
namespace Recertia.Episodic

open Transition

section Buckets

/-- How often a row stands in a bucket. -/
def timesIn (key : BucketKey) (row : IndexRow) : ℕ := (bucketKeys row).count key

theorem addRow_apply (buckets : Buckets) (row : IndexRow) (key : BucketKey) :
    addRow buckets row key = buckets key ++ List.replicate (timesIn key row) row := by
  rw [addRow, timesIn]
  induction bucketKeys row generalizing buckets with
  | nil => simp
  | cons k keys ih =>
    rw [List.foldl_cons, ih, List.count_cons]
    by_cases hk : k = key
    · subst hk
      rw [Function.update_self, beq_self_eq_true, if_pos rfl, List.append_assoc,
        List.singleton_append, ← List.replicate_succ]
    · rw [Function.update_of_ne (Ne.symm hk), if_neg (by simpa using hk), Nat.add_zero]

/-- A bucket has the rows in the order of the file. -/
theorem bucketsOf_apply (rows : List IndexRow) (key : BucketKey) :
    bucketsOf rows key = rows.flatMap fun row => List.replicate (timesIn key row) row := by
  have hfold : ∀ buckets : Buckets, rows.foldl addRow buckets key =
      buckets key ++ rows.flatMap fun row => List.replicate (timesIn key row) row := by
    induction rows with
    | nil => intro buckets; rw [List.foldl_nil, List.flatMap_nil, List.append_nil]
    | cons row rows ih =>
      intro buckets
      rw [List.foldl_cons, ih, addRow_apply, List.flatMap_cons, List.append_assoc]
  rw [bucketsOf, hfold, List.nil_append]

theorem bucketsOf_append (rows : List IndexRow) (row : IndexRow) :
    bucketsOf (rows ++ [row]) = addRow (bucketsOf rows) row := by
  rw [bucketsOf, List.foldl_append]
  rfl

theorem countsOf_append (rows : List IndexRow) (row : IndexRow) :
    countsOf (rows ++ [row]) = addCount (countsOf rows) row.taskClass := by
  rw [countsOf, List.foldl_append]
  rfl

theorem countsOf_apply (rows : List IndexRow) (taskClass : Option String) :
    countsOf rows taskClass = (rows.filter fun row => row.taskClass = taskClass).length := by
  induction rows using List.reverseRecOn with
  | nil => rfl
  | append_singleton rows row ih =>
    rw [countsOf_append, addCount, List.filter_append, List.length_append, ← ih]
    by_cases heq : row.taskClass = taskClass
    · subst heq
      simp
    · simp [Function.update_of_ne (Ne.symm heq), heq]

/-- Any class: a row without a class of its own stands twice. -/
theorem timesIn_any (kind : Kind) (row : IndexRow) : timesIn (kind, none) row =
    if kind ∈ kindsOf row then (if row.taskClass = none then 2 else 1) else 0 := by
  rw [timesIn, bucketKeys, kindsOf]
  cases kind <;> cases row.hasDeadEnd <;> cases row.outcome <;> cases row.taskClass <;> rfl

theorem timesIn_class (kind : Kind) (cls : String) (row : IndexRow) :
    timesIn (kind, some cls) row =
      if kind ∈ kindsOf row ∧ row.taskClass = some cls then 1 else 0 := by
  rw [timesIn, bucketKeys, kindsOf]
  cases htask : row.taskClass with
  | none => cases kind <;> cases row.hasDeadEnd <;> cases row.outcome <;> simp
  | some own =>
    by_cases hown : own = cls
    · subst hown
      cases kind <;> cases row.hasDeadEnd <;> cases row.outcome <;> simp
    · cases kind <;> cases row.hasDeadEnd <;> cases row.outcome <;> simp [hown]

end Buckets

section Scan

/-- Whether a scan for a kind and a class takes a row; no class, or an empty one, is any. -/
def wanted (kind : Kind) (taskClass : Option String) (row : IndexRow) : Bool :=
  kind ∈ kindsOf row ∧ (orNone taskClass = none ∨ row.taskClass = taskClass)

/-- The most recent rows of a file. -/
def scan (rows : List IndexRow) (kind : Kind) (taskClass : Option String) (limit : Int) :
    List IndexRow := ((rows.filter (wanted kind taskClass)).reverse).take limit.toNat

/-- The last rows but one have each a class, where any class is asked for. -/
def Once (rows : List IndexRow) (kind : Kind) (taskClass : Option String) (limit : Int) : Prop :=
  orNone taskClass = none → ∀ row ∈ scan rows kind taskClass (limit - 1), row.taskClass ≠ none

theorem reverse_drop (bucket : List IndexRow) (n : ℕ) :
    (bucket.drop (bucket.length - n)).reverse = bucket.reverse.take n := by
  rw [List.take_reverse]

/-- Rows that are repeated only behind the first so many do not show among these. -/
theorem take_flatMap_repeat (times : IndexRow → ℕ) (rows : List IndexRow) (n : ℕ)
    (hpos : ∀ row ∈ rows, 0 < times row) (honce : ∀ row ∈ rows.take (n - 1), times row = 1) :
    (rows.flatMap fun row => List.replicate (times row) row).take n = rows.take n := by
  induction rows generalizing n with
  | nil => rfl
  | cons row rows ih =>
    obtain ⟨hrow, hrows⟩ := List.forall_mem_cons.mp hpos
    cases n with
    | zero => rfl
    | succ n =>
      rw [List.flatMap_cons]
      cases n with
      | zero =>
        obtain ⟨k, hk⟩ := Nat.exists_eq_succ_of_ne_zero (Nat.pos_iff_ne_zero.mp hrow)
        rw [hk, List.replicate_succ, List.cons_append]
        rfl
      | succ n =>
        have hfirst : times row = 1 := honce row List.mem_cons_self
        have hrest := ih (n + 1) hrows fun r hr => honce r (List.mem_cons_of_mem _ hr)
        rw [hfirst, List.replicate_one, List.singleton_append, List.take_succ_cons, hrest,
          List.take_succ_cons]

/-- A bucket, once more with the rows that are not in it. -/
theorem flatMap_filter (p : IndexRow → Bool) (times : IndexRow → ℕ) (rows : List IndexRow)
    (hnot : ∀ row, p row = false → times row = 0) :
    rows.flatMap (fun row => List.replicate (times row) row) =
      (rows.filter p).flatMap fun row => List.replicate (times row) row := by
  induction rows with
  | nil => rfl
  | cons row rows ih =>
    rw [List.flatMap_cons, List.filter_cons, ih]
    cases hp : p row with
    | true => rw [if_pos rfl, List.flatMap_cons]
    | false => rw [hnot row hp, List.replicate_zero, List.nil_append, if_neg Bool.false_ne_true]

theorem reverse_flatMap_replicate (times : IndexRow → ℕ) (rows : List IndexRow) :
    (rows.flatMap fun row => List.replicate (times row) row).reverse =
      rows.reverse.flatMap fun row => List.replicate (times row) row := by
  rw [List.reverse_flatMap]
  simp only [Function.comp_def, List.reverse_replicate]

/-- The tail of a bucket is the scan, where no row is repeated in sight. -/
theorem bucket_eq_scan {rows : List IndexRow} {kind : Kind} {taskClass : Option String}
    {limit : Int} (honce : Once rows kind taskClass limit) :
    ((bucketsOf rows (kind, orNone taskClass)).drop
      ((bucketsOf rows (kind, orNone taskClass)).length - limit.toNat)).reverse =
        scan rows kind taskClass limit := by
  have htimes : ∀ row, timesIn (kind, orNone taskClass) row =
      if wanted kind taskClass row then
        (if orNone taskClass = none ∧ row.taskClass = none then 2 else 1) else 0 := by
    intro row
    cases hclass : orNone taskClass with
    | none =>
      rw [timesIn_any]
      simp only [wanted, hclass, true_or, and_true, decide_eq_true_eq, true_and]
    | some cls =>
      have hsame : taskClass = some cls := by
        cases taskClass with
        | none => cases hclass
        | some own =>
          rw [orNone.eq_def] at hclass
          split at hclass
          · cases hclass
          · exact hclass
      subst hsame
      rw [timesIn_class]
      simp only [wanted, hclass, reduceCtorEq, false_or, decide_eq_true_eq, false_and, if_false]
  rw [reverse_drop, bucketsOf_apply, flatMap_filter (wanted kind taskClass) _ rows (fun row hrow => by
    rw [htimes, hrow]; rfl), reverse_flatMap_replicate, scan]
  apply take_flatMap_repeat
  · intro row hrow
    have hwanted := (List.mem_filter.mp (List.mem_reverse.mp hrow)).2
    rw [htimes, if_pos hwanted]
    split <;> omega
  · intro row hrow
    have hwanted := (List.mem_filter.mp (List.mem_reverse.mp (List.mem_of_mem_take hrow))).2
    rw [htimes, if_pos hwanted]
    refine if_neg fun hboth => ?_
    refine honce hboth.1 row ?_ hboth.2
    have hlimit : (limit - 1).toNat = limit.toNat - 1 := by omega
    rw [scan, hlimit]
    exact hrow

end Scan

variable {lineSize : IndexRow → ℕ} {contentHash : CaseRecord → String}

section Store

theorem fileSize_append (rows more : List IndexRow) :
    fileSize lineSize (rows ++ more) = fileSize lineSize rows + fileSize lineSize more := by
  induction rows with
  | nil => simp only [List.nil_append, fileSize, Nat.zero_add]
  | cons row rows ih =>
    rw [List.cons_append, fileSize, fileSize, ih]
    omega

/-- A file of the same size has no row more. -/
theorem eq_nil_of_fileSize {rows more : List IndexRow}
    (h : fileSize lineSize (rows ++ more) = fileSize lineSize rows) : more = [] := by
  rw [fileSize_append] at h
  cases more with
  | nil => rfl
  | cons row more =>
    rw [fileSize] at h
    omega

/-- What a store keeps was the file's: its rows are the first ones, its stamp tells how many, and
its tables are made of its rows. -/
structure Store.Kept (lineSize : IndexRow → ℕ) (disk : Disk) (s : Store) : Prop where
  rows : ∀ rows, s.cache = some rows → ∃ more, disk.rows = rows ++ more ∧
    ((s.stat = none ∧ rows = []) ∨ s.stat = some (fileSize lineSize rows))
  buckets : ∀ rows buckets, s.cache = some rows → s.buckets = some buckets →
    buckets = bucketsOf rows
  counts : ∀ rows counts, s.cache = some rows → s.counts = some counts → counts = countsOf rows

/-- A store whose stamp is the file's has all of its rows. -/
theorem Store.Kept.rows_eq {disk : Disk} {s : Store} (h : s.Kept lineSize disk)
    {rows : List IndexRow} (hcache : s.cache = some rows) (hstat : disk.stat lineSize = s.stat) :
    disk.rows = rows := by
  obtain ⟨more, hrows, hempty | hsize⟩ := h.rows rows hcache
  · rw [hempty.1, Disk.stat, Option.map_eq_none_iff] at hstat
    rw [hempty.2, Disk.rows, hstat]
    rfl
  · rw [hsize, Disk.stat] at hstat
    obtain ⟨all, hall, hsame⟩ := Option.map_eq_some_iff.mp hstat
    rw [Disk.rows, hall, Option.getD_some] at hrows
    rw [hrows] at hsame
    rw [Disk.rows, hall, Option.getD_some, hrows, eq_nil_of_fileSize hsame, List.append_nil]

theorem Store.refresh_kept {disk : Disk} {s : Store} (h : s.Kept lineSize disk) :
    (s.refresh lineSize disk).Kept lineSize disk ∧
      (s.refresh lineSize disk).cache = some disk.rows := by
  rw [Store.refresh]
  split
  · rename_i hcurrent
    obtain ⟨rows, hcache⟩ := Option.ne_none_iff_exists'.mp hcurrent.1
    exact ⟨h, by rw [hcache, h.rows_eq hcache hcurrent.2]⟩
  · refine ⟨⟨fun rows hcache => ⟨[], ?_, ?_⟩, fun _ _ _ heq => (by cases heq),
      fun _ _ _ heq => (by cases heq)⟩, rfl⟩
    · rw [List.append_nil]
      exact Option.some.inj hcache
    · cases hcache
      cases hindex : disk.index with
      | none =>
        refine Or.inl ⟨?_, ?_⟩
        · change disk.stat lineSize = none
          rw [Disk.stat, hindex]
          rfl
        · rw [Disk.rows, hindex]
          rfl
      | some rows =>
        refine Or.inr ?_
        change disk.stat lineSize = _
        rw [Disk.stat, Disk.rows, hindex]
        rfl

theorem Store.withBuckets_spec {disk : Disk} {s : Store} (h : s.Kept lineSize disk) :
    (s.withBuckets lineSize disk).1 = bucketsOf disk.rows ∧
      (s.withBuckets lineSize disk).2.Kept lineSize disk := by
  obtain ⟨hkept, hcache⟩ := Store.refresh_kept h
  rw [Store.withBuckets]
  dsimp only
  cases hbuckets : (s.refresh lineSize disk).buckets with
  | some buckets => exact ⟨hkept.buckets _ _ hcache hbuckets, hkept⟩
  | none =>
    refine ⟨by rw [hcache]; rfl, hkept.rows, fun rows buckets hrows hsome => ?_, hkept.counts⟩
    have hsame : (s.refresh lineSize disk).cache = some rows := hrows
    rw [← Option.some.inj hsome, hsame]
    rfl

theorem Store.countForTaskClass_spec {disk : Disk} {s : Store} (h : s.Kept lineSize disk)
    (taskClass : Option String) :
    (s.countForTaskClass lineSize disk taskClass).1 =
        (disk.rows.filter fun row => row.taskClass = taskClass).length ∧
      (s.countForTaskClass lineSize disk taskClass).2.Kept lineSize disk := by
  obtain ⟨hkept, hcache⟩ := Store.refresh_kept h
  rw [Store.countForTaskClass]
  dsimp only
  cases hcounts : (s.refresh lineSize disk).counts with
  | some counts =>
    have hsame : counts = countsOf disk.rows := hkept.counts _ _ hcache hcounts
    refine ⟨?_, hkept⟩
    change counts taskClass = _
    rw [hsame, countsOf_apply]
  | none =>
    refine ⟨by rw [hcache, Option.getD_some, countsOf_apply], hkept.rows, hkept.buckets,
      fun rows counts hrows hsome => ?_⟩
    have hsame : (s.refresh lineSize disk).cache = some rows := hrows
    rw [← Option.some.inj hsome, hsame]
    rfl

theorem Store.recentRows_spec {disk : Disk} {s : Store} (h : s.Kept lineSize disk) (kind : Kind)
    (taskClass : Option String) (limit : Int) :
    (Once disk.rows kind taskClass limit →
      (s.recentRows lineSize disk kind taskClass limit).1 =
        scan disk.rows kind taskClass limit) ∧
      (s.recentRows lineSize disk kind taskClass limit).2.Kept lineSize disk := by
  rw [Store.recentRows]
  split
  · rename_i hlimit
    refine ⟨fun _ => ?_, h⟩
    rw [scan, Int.toNat_of_nonpos hlimit, List.take_zero]
  · obtain ⟨hbuckets, hkept⟩ := Store.withBuckets_spec h
    refine ⟨fun honce => ?_, hkept⟩
    dsimp only
    rw [hbuckets]
    exact bucket_eq_scan honce

/-- A row that a store adds to a file it knows, or has never read. -/
theorem Store.write_kept {disk : Disk} {s : Store} (h : s.Kept lineSize disk) (case_ : CaseRecord)
    (hcurrent : s.cache = none ∨ disk.stat lineSize = s.stat) :
    (s.write lineSize contentHash disk case_).2.Kept lineSize
      (s.write lineSize contentHash disk case_).1 := by
  rw [Store.write]
  cases hcache : s.cache with
  | none =>
    refine ⟨fun rows hrows => ?_, fun rows _ hrows _ => ?_, fun rows _ hrows _ => ?_⟩ <;>
    · rw [show s.cache = some rows from hrows] at hcache
      cases hcache
  | some rows =>
    have hstat : disk.stat lineSize = s.stat := by
      rcases hcurrent with hnone | hsame
      · rw [hcache] at hnone
        cases hnone
      · exact hsame
    have hrows := h.rows_eq hcache hstat
    refine ⟨fun after hafter => ⟨[], ?_, Or.inr ?_⟩, fun after buckets hafter hbuckets => ?_,
      fun after counts hafter hcounts => ?_⟩
    · rw [← Option.some.inj hafter, List.append_nil, ← hrows]
      rfl
    · rw [← Option.some.inj hafter, ← hrows]
      rfl
    · obtain ⟨old, hold, hadd⟩ := Option.map_eq_some_iff.mp hbuckets
      rw [← Option.some.inj hafter, bucketsOf_append, ← h.buckets rows old hcache hold, hadd]
    · obtain ⟨old, hold, hadd⟩ := Option.map_eq_some_iff.mp hcounts
      rw [← Option.some.inj hafter, countsOf_append, ← h.counts rows old hcache hold, hadd]

/-- The file grows under the other stores. -/
theorem Store.Kept.grow {disk : Disk} {s : Store} (h : s.Kept lineSize disk) (other : Store)
    (case_ : CaseRecord) : s.Kept lineSize (other.write lineSize contentHash disk case_).1 := by
  have hdisk : (other.write lineSize contentHash disk case_).1.rows =
      disk.rows ++ [rowOf contentHash case_] := by
    rw [Store.write]
    cases other.cache <;> rfl
  refine ⟨fun rows hrows => ?_, h.buckets, h.counts⟩
  obtain ⟨more, hmore, hstat⟩ := h.rows rows hrows
  exact ⟨more ++ [rowOf contentHash case_], by rw [hdisk, hmore, List.append_assoc], hstat⟩

end Store

section Runs

variable {ι : Type} [DecidableEq ι]

variable (lineSize) in
/-- A lookup returns what a scan of the file returns now. -/
def Correct (w : World ι) : Label ι → Prop
  | .write _ _ => True
  | .deadEndsFor i taskClass limit =>
    ((w.stores i).deadEndsFor lineSize w.disk taskClass limit).1 =
      (scan w.disk.rows .deadEnd taskClass limit).map fun row => w.disk.cases.get? row.hash
  | .solvedCaseIdsFor i taskClass limit =>
    ((w.stores i).solvedCaseIdsFor lineSize w.disk taskClass limit).1 =
      (scan w.disk.rows .solved taskClass limit).map IndexRow.caseId
  | .countForTaskClass i taskClass =>
    ((w.stores i).countForTaskClass lineSize w.disk taskClass).1 =
      (w.disk.rows.filter fun row => row.taskClass = taskClass).length

variable (lineSize) in
/-- A store writes only while what it has read of the index is all of it, and where any class is
asked for, none of the last rows but one is without a class. -/
def Meets (w : World ι) : Label ι → Prop
  | .write i _ => (w.stores i).cache = none ∨ w.disk.stat lineSize = (w.stores i).stat
  | .deadEndsFor _ taskClass limit => Once w.disk.rows .deadEnd taskClass limit
  | .solvedCaseIdsFor _ taskClass limit => Once w.disk.rows .solved taskClass limit
  | .countForTaskClass _ _ => True

def World.Kept (lineSize : IndexRow → ℕ) (w : World ι) : Prop :=
  ∀ i, (w.stores i).Kept lineSize w.disk

theorem World.Kept.set {w : World ι} (h : w.Kept lineSize) {i : ι} {s : Store}
    (hs : s.Kept lineSize w.disk) : (w.set i s).Kept lineSize := by
  intro j
  by_cases hj : j = i
  · subst hj
    change Store.Kept lineSize w.disk (Function.update w.stores j s j)
    rw [Function.update_self]
    exact hs
  · change Store.Kept lineSize w.disk (Function.update w.stores i s j)
    rw [Function.update_of_ne hj]
    exact h j

theorem kept_step {w : World ι} (h : w.Kept lineSize) (l : Label ι) (hmeets : Meets lineSize w l) :
    (step lineSize contentHash w l).Kept lineSize := by
  cases l with
  | write i case_ =>
    intro j
    rw [step]
    dsimp only
    by_cases hj : j = i
    · subst hj
      rw [Function.update_self]
      exact Store.write_kept (h j) case_ hmeets
    · rw [Function.update_of_ne hj]
      exact (h j).grow (w.stores i) case_
  | deadEndsFor i taskClass limit =>
    exact h.set (Store.recentRows_spec (h i) .deadEnd taskClass limit).2
  | solvedCaseIdsFor i taskClass limit =>
    exact h.set (Store.recentRows_spec (h i) .solved taskClass limit).2
  | countForTaskClass i taskClass => exact h.set (Store.countForTaskClass_spec (h i) taskClass).2

omit [DecidableEq ι] in
theorem correct_of_kept {w : World ι} (h : w.Kept lineSize) (l : Label ι)
    (hmeets : Meets lineSize w l) : Correct lineSize w l := by
  cases l with
  | write i case_ => trivial
  | deadEndsFor i taskClass limit =>
    have hrows := (Store.recentRows_spec (h i) .deadEnd taskClass limit).1 hmeets
    rw [Correct, ← hrows]
    rfl
  | solvedCaseIdsFor i taskClass limit =>
    have hrows := (Store.recentRows_spec (h i) .solved taskClass limit).1 hmeets
    rw [Correct, ← hrows]
    rfl
  | countForTaskClass i taskClass => exact (Store.countForTaskClass_spec (h i) taskClass).1

omit [DecidableEq ι] in
theorem kept_start (disk : Disk) : (start (ι := ι) disk).Kept lineSize :=
  fun _ => ⟨fun _ heq => (by cases heq), fun _ _ _ heq => (by cases heq),
    fun _ _ _ heq => (by cases heq)⟩

variable (lineSize contentHash)

/-- Along a run whose steps all meet the condition every lookup is that of a scan. -/
theorem correct_along (disk : Disk) (ls : List (Label ι))
    (hmeets : (system lineSize contentHash).Along (fun w l _ => Meets lineSize w l)
      (start disk) ls) :
    (system lineSize contentHash).Along (fun w l _ => Correct lineSize w l) (start disk) ls := by
  refine System.along_of_invariant (I := World.Kept lineSize) ?_ ?_ (kept_start disk) hmeets
  · rintro w l t hkept hstep hmeets
    rw [← Option.some.inj hstep]
    exact kept_step hkept l hmeets
  · exact fun w l _ hkept _ hmeets => correct_of_kept hkept l hmeets

omit [DecidableEq ι] in
instance decidableMeets (w : World ι) (l : Label ι) : Decidable (Meets lineSize w l) := by
  cases l <;> simp only [Meets, Once] <;> infer_instance

end Runs

section Examples

def plainCase (caseId : String) (taskClass : Option String) : CaseRecord :=
  ⟨caseId, "run-1", 1, taskClass, .solved, none, some ⟨"sed", "no match", none⟩, none, ""⟩

/-- Two stores, each of which looks before it writes. -/
def alternating : List (Label Bool) :=
  [.write true (plainCase "a" (some "etl")), .countForTaskClass false (some "etl"),
    .write false (plainCase "b" (some "etl")), .deadEndsFor true (some "etl") 3,
    .write true (plainCase "c" none), .solvedCaseIdsFor false none 1,
    .countForTaskClass true (some "etl")]

theorem correct_along_alternating : (system (fun _ => 9) CaseRecord.caseId).Along
    (fun w l _ => Correct (fun _ => 9) w l) (start ⟨none, Table.empty⟩) alternating := by
  apply correct_along
  have hcheck : (system (fun _ => 9) CaseRecord.caseId).check
      (fun w l => decide (Meets (fun _ => 9) w l)) (start ⟨none, Table.empty⟩) alternating = true := by
    decide +kernel
  exact System.along_mono (fun w l t _ h => of_decide_eq_true h) (System.along_of_check hcheck)

/-- Store `true` writes twice without a look; then its stamp is that of a file whose second row,
by store `false`, it never reads. -/
def unseenWrite : List (Label Bool) :=
  [.countForTaskClass true none, .write false (plainCase "a" (some "etl")),
    .write true (plainCase "b" (some "etl")), .countForTaskClass true (some "etl")]

theorem not_correct_unseenWrite : ¬ ∀ (lineSize : IndexRow → ℕ) (contentHash : CaseRecord → String)
    (disk : Disk) (ls : List (Label Bool)), (system lineSize contentHash).Along
      (fun w l _ => Correct lineSize w l) (start disk) ls := by
  intro h
  have halong := h (fun _ => 9) CaseRecord.caseId ⟨none, Table.empty⟩ unseenWrite
  have hcount : (1 : ℕ) = 2 := (halong _ rfl).2 _ rfl |>.2 _ rfl |>.2 _ rfl |>.1
  cases hcount

end Examples

end Recertia.Episodic
