import Mathlib.Data.List.Sort
import Linkora.Lib.Text

/-!
# Retention of raw events

`services/indexer/src/retention.ts`: once an hour the manager creates the partition that the
ledger cursor reaches next, and then detaches and drops the partitions that are too old.  The
age is measured from the newest partition or the cursor, whichever is further.
-/

namespace Linkora
namespace Indexer

structure RetentionConfig where
  retentionLedgers : Nat
  partitionSize : Nat
  archiveOnly : Bool

def defaultRetentionConfig : RetentionConfig where
  retentionLedgers := 4000000
  partitionSize := 1000000
  archiveOnly := false

structure PartitionInfo where
  tableName : String
  loLedger : Nat
  hiLedger : Nat
  deriving DecidableEq

/-- The statements that change the schema. -/
inductive Ddl where
  | create (tableName : String)
  | detach (tableName : String) (concurrently : Bool)
  | drop (tableName : String)

/-- What the catalogue says. -/
structure Schema where
  /-- `relkind = 'p'` of `raw_events` -/
  isPartitioned : Bool
  /-- The children of `raw_events`. -/
  children : List String
  /-- The other relations of the schema `public`. -/
  others : List String

/-- What the database answers in one cycle beside its catalogue.  The indexer goes on writing and
processing rows, so `hasUnprocessed` is the answer at the time of the query; no two queries of a
cycle are about the same table.  A query without an answer fails. -/
structure RetentionPool where
  serverVersionNum : Option Nat
  hasUnprocessed : String → Option Bool
  accepts : Ddl → Bool

/-- ``raw_events_p${lo}_${hi}`` -/
def partitionName (lo hi : Nat) : String := "raw_events_p" ++ toString lo ++ "_" ++ toString hi

/-- `/^raw_events_p(\d+)_(\d+)$/` -/
def parsePartition (relname : String) : Option PartitionInfo :=
  if Text.startsWith relname "raw_events_p" = true then
    let rest := relname.toList.drop 12
    let lo := rest.takeWhile Char.isDigit
    match rest.dropWhile Char.isDigit with
    | '_' :: hi =>
      if lo ≠ [] ∧ hi ≠ [] ∧ hi.all Char.isDigit = true then
        some {
          tableName := relname
          loLedger := Nat.ofDigitChars 10 lo 0
          hiLedger := Nat.ofDigitChars 10 hi 0 }
      else none
    | _ => none
  else none

def supportsDetachConcurrently (pool : RetentionPool) : Option Bool :=
  pool.serverVersionNum.map fun versionNum => decide (140000 ≤ versionNum)

def listPartitions (db : Schema) : List PartitionInfo :=
  (db.children.insertionSort (· ≤ ·)).filterMap parsePartition

def isFullyProcessed (pool : RetentionPool) (tableName : String) : Option Bool :=
  (pool.hasUnprocessed tableName).map Bool.not

/-- Where the bucket begins that comes after the one of the cursor. -/
def nextBucketLo (currentLedger : Nat) (cfg : RetentionConfig) : Nat :=
  (currentLedger / cfg.partitionSize + 1) * cfg.partitionSize

def nextBucketHi (currentLedger : Nat) (cfg : RetentionConfig) : Nat :=
  nextBucketLo currentLedger cfg + cfg.partitionSize

def ensureNextPartition (currentLedger : Nat) (cfg : RetentionConfig) (pool : RetentionPool)
    (db : Schema) : Option Schema :=
  let tableName := partitionName (nextBucketLo currentLedger cfg) (nextBucketHi currentLedger cfg)
  if tableName ∈ db.children ∨ tableName ∈ db.others then some db
  else if pool.accepts (.create tableName) = true then
    some { db with children := tableName :: db.children }
  else none

def newestHi (partitions : List PartitionInfo) : Nat :=
  partitions.foldl (fun max p => if max < p.hiLedger then p.hiLedger else max) 0

def retentionHead (currentLedger : Nat) (partitions : List PartitionInfo) : Nat :=
  if newestHi partitions < currentLedger then currentLedger else newestHi partitions

/-- The statements for one partition; the answer tells whether both went through. -/
def removePartition (cfg : RetentionConfig) (pool : RetentionPool) (detachConcurrently : Bool)
    (tableName : String) (db : Schema) : Bool × Schema :=
  if pool.accepts (.detach tableName detachConcurrently) = true then
    let children := db.children.filter (· ≠ tableName)
    if cfg.archiveOnly = true then
      (true, { db with children, others := tableName :: db.others })
    else if pool.accepts (.drop tableName) = true then (true, { db with children })
    else (false, { db with children, others := tableName :: db.others })
  else (false, db)

/-- The loop over the partitions, with the names dropped so far. -/
def dropLoop (cfg : RetentionConfig) (pool : RetentionPool) (cutoff : Nat)
    (detachConcurrently : Bool) :
    List PartitionInfo → List String → Schema → Option (List String) × Schema
  | [], dropped, db => (some dropped, db)
  | p :: rest, dropped, db =>
    if cutoff ≤ p.hiLedger + cfg.partitionSize then
      dropLoop cfg pool cutoff detachConcurrently rest dropped db
    else
      match isFullyProcessed pool p.tableName with
      | none => (none, db)
      | some false => dropLoop cfg pool cutoff detachConcurrently rest dropped db
      | some true =>
        let removed := removePartition cfg pool detachConcurrently p.tableName db
        dropLoop cfg pool cutoff detachConcurrently rest
          (if removed.1 = true then dropped ++ [p.tableName] else dropped) removed.2

def dropOldPartitions (currentLedger : Nat) (cfg : RetentionConfig) (pool : RetentionPool)
    (db : Schema) : Option (List String) × Schema :=
  let partitions := listPartitions db
  if partitions = [] then (some [], db)
  else if retentionHead currentLedger partitions ≤ cfg.retentionLedgers then (some [], db)
  else
    let cutoff := retentionHead currentLedger partitions - cfg.retentionLedgers
    match supportsDetachConcurrently pool with
    | none => (none, db)
    | some detachConcurrently => dropLoop cfg pool cutoff detachConcurrently partitions [] db

/-- One maintenance cycle, with the names that it logs; `none` where it rejects. -/
def runOnce (currentLedger : Nat) (cfg : RetentionConfig) (pool : RetentionPool) (db : Schema) :
    Option (List String) × Schema :=
  if db.isPartitioned = true then
    match ensureNextPartition currentLedger cfg pool db with
    | none => (none, db)
    | some db => dropOldPartitions currentLedger cfg pool db
  else (some [], db)

/-! ## Names -/

theorem takeWhile_digits (n : Nat) (rest : List Char) :
    ((toString n).toList ++ '_' :: rest).takeWhile Char.isDigit = (toString n).toList ∧
      ((toString n).toList ++ '_' :: rest).dropWhile Char.isDigit = '_' :: rest := by
  have hdigits : ∀ c ∈ (toString n).toList, c.isDigit = true := by
    intro c hc
    rw [Nat.toString_eq_ofList_toDigits, String.toList_ofList] at hc
    exact Nat.isDigit_of_mem_toDigits (by omega) (by omega) hc
  constructor
  · rw [List.takeWhile_append_of_pos hdigits]
    simp
  · rw [List.dropWhile_append_of_pos hdigits]
    rfl

theorem parsePartition_partitionName (lo hi : Nat) :
    parsePartition (partitionName lo hi) = some ⟨partitionName lo hi, lo, hi⟩ := by
  have hlist : (partitionName lo hi).toList =
      "raw_events_p".toList ++ ((toString lo).toList ++ '_' :: (toString hi).toList) := by
    simp [partitionName]
  have hstart : Text.startsWith (partitionName lo hi) "raw_events_p" = true := by
    rw [Text.startsWith, hlist]
    exact decide_eq_true (List.prefix_append _ _)
  have hrest : (partitionName lo hi).toList.drop 12 =
      (toString lo).toList ++ '_' :: (toString hi).toList := by
    rw [hlist]
    rfl
  have hvalue : ∀ n : Nat, (toString n).toList ≠ [] ∧
      (toString n).toList.all Char.isDigit = true ∧
      Nat.ofDigitChars 10 (toString n).toList 0 = n := by
    intro n
    rw [Nat.toString_eq_ofList_toDigits, String.toList_ofList]
    refine ⟨Nat.toDigits_ne_nil, List.all_eq_true.mpr fun c hc => ?_, by simp⟩
    exact Nat.isDigit_of_mem_toDigits (by omega) (by omega) hc
  obtain ⟨htake, hdrop⟩ := takeWhile_digits lo (toString hi).toList
  rw [parsePartition, if_pos hstart, hrest]
  simp only [htake, hdrop]
  rw [if_pos ⟨(hvalue lo).1, (hvalue hi).1, (hvalue hi).2.1⟩, (hvalue lo).2.2, (hvalue hi).2.2]

theorem tableName_of_parse {relname : String} {p : PartitionInfo}
    (h : parsePartition relname = some p) : p.tableName = relname := by
  rw [parsePartition] at h
  split at h
  · simp only at h
    split at h
    · split at h
      · rw [← Option.some.inj h]
      · cases h
    · cases h
  · cases h

section

variable {currentLedger cutoff : Nat} {cfg : RetentionConfig} {pool : RetentionPool}
  {db db' : Schema} {ps : List PartitionInfo} {p : PartitionInfo} {acc dropped : List String}
  {detachConcurrently : Bool} {name : String}

theorem mem_listPartitions :
    p ∈ listPartitions db ↔ ∃ name ∈ db.children, parsePartition name = some p := by
  rw [listPartitions, List.mem_filterMap]
  constructor
  · rintro ⟨name, hname, hp⟩
    exact ⟨name, (List.mem_insertionSort _).mp hname, hp⟩
  · rintro ⟨name, hname, hp⟩
    exact ⟨name, (List.mem_insertionSort _).mpr hname, hp⟩

theorem partition_listed {lo hi : Nat} (h : partitionName lo hi ∈ db.children) :
    (⟨partitionName lo hi, lo, hi⟩ : PartitionInfo) ∈ listPartitions db :=
  mem_listPartitions.mpr ⟨_, h, parsePartition_partitionName lo hi⟩

/-! ## The retention head -/

theorem foldl_hi_le_iff (ps : List PartitionInfo) (m b : Nat) :
    ps.foldl (fun max p => if max < p.hiLedger then p.hiLedger else max) m ≤ b ↔
      m ≤ b ∧ ∀ p ∈ ps, p.hiLedger ≤ b := by
  induction ps generalizing m with
  | nil => simp
  | cons p rest ih =>
    rw [List.foldl_cons, ih, List.forall_mem_cons]
    constructor
    · rintro ⟨hmax, hrest⟩
      split at hmax
      · exact ⟨by omega, hmax, hrest⟩
      · exact ⟨hmax, by omega, hrest⟩
    · rintro ⟨hm, hp, hrest⟩
      refine ⟨?_, hrest⟩
      split
      · exact hp
      · exact hm

theorem newestHi_le_iff {b : Nat} : newestHi ps ≤ b ↔ ∀ p ∈ ps, p.hiLedger ≤ b := by
  rw [newestHi, foldl_hi_le_iff]
  simp

theorem retentionHead_eq : retentionHead currentLedger ps = max currentLedger (newestHi ps) := by
  rw [retentionHead]
  split <;> omega

theorem le_retentionHead (currentLedger : Nat) (hp : p ∈ ps) :
    p.hiLedger ≤ retentionHead currentLedger ps := by
  rw [retentionHead_eq]
  exact Nat.le_trans (newestHi_le_iff.mp (Nat.le_refl _) p hp) (Nat.le_max_right _ _)

/-! ## Removing partitions -/

/-- The database takes every statement about a table. -/
def Accepts (pool : RetentionPool) (tableName : String) : Prop :=
  pool.accepts (.drop tableName) = true ∧
    ∀ concurrently, pool.accepts (.detach tableName concurrently) = true

theorem removePartition_children (h : name ∈ (removePartition cfg pool detachConcurrently
    p.tableName db).2.children) : name ∈ db.children := by
  rw [removePartition] at h
  split at h
  · have hmem : name ∈ db.children.filter (· ≠ p.tableName) := by
      split at h
      · exact h
      · split at h <;> exact h
    exact (List.mem_filter.mp hmem).1
  · exact h

theorem removePartition_removes
    (h : (removePartition cfg pool detachConcurrently name db).1 = true) :
    name ∉ (removePartition cfg pool detachConcurrently name db).2.children := by
  have hfilter : name ∉ db.children.filter (· ≠ name) := by simp
  rw [removePartition] at h ⊢
  split
  · split
    · exact hfilter
    · split <;> exact hfilter
  · rename_i hdetach
    rw [if_neg hdetach] at h
    cases h

theorem removePartition_of_accepts (h : Accepts pool name) :
    (removePartition cfg pool detachConcurrently name db).1 = true := by
  rw [removePartition, if_pos (h.2 detachConcurrently)]
  split
  · rfl
  · rw [if_pos h.1]

/-- What a loop that ends has dropped, and what it leaves. -/
structure Dropped (cfg : RetentionConfig) (pool : RetentionPool) (cutoff : Nat)
    (ps : List PartitionInfo) (acc : List String) (db : Schema) (dropped : List String)
    (db' : Schema) : Prop where
  old : ∀ name ∈ dropped, name ∈ acc ∨ ∃ p ∈ ps, p.tableName = name ∧
    p.hiLedger + cfg.partitionSize < cutoff ∧ isFullyProcessed pool name = some true ∧
      name ∉ db'.children
  kept : ∀ name ∈ acc, name ∈ dropped
  children : ∀ name ∈ db'.children, name ∈ db.children
  removed : ∀ p ∈ ps, p.hiLedger + cfg.partitionSize < cutoff →
    isFullyProcessed pool p.tableName = some true → Accepts pool p.tableName →
      p.tableName ∈ dropped

/-- A partition that the loop passes over. -/
theorem Dropped.skip (h : Dropped cfg pool cutoff ps acc db dropped db')
    (hskip : p.hiLedger + cfg.partitionSize < cutoff →
      isFullyProcessed pool p.tableName ≠ some true) :
    Dropped cfg pool cutoff (p :: ps) acc db dropped db' where
  old name hname := by
    rcases h.old name hname with hacc | ⟨q, hq, hrest⟩
    · exact Or.inl hacc
    · exact Or.inr ⟨q, List.mem_cons_of_mem _ hq, hrest⟩
  kept := h.kept
  children := h.children
  removed q hq hold hprocessed haccepts := by
    rcases List.mem_cons.mp hq with rfl | hq
    · exact absurd hprocessed (hskip hold)
    · exact h.removed q hq hold hprocessed haccepts

theorem dropLoop_spec
    (h : dropLoop cfg pool cutoff detachConcurrently ps acc db = (some dropped, db')) :
    Dropped cfg pool cutoff ps acc db dropped db' := by
  induction ps generalizing acc db with
  | nil =>
    obtain ⟨hacc, rfl⟩ := Prod.mk.inj h
    obtain rfl := Option.some.inj hacc
    exact ⟨fun _ h => Or.inl h, fun _ h => h, fun _ h => h, by simp⟩
  | cons p rest ih =>
    rw [dropLoop] at h
    by_cases hyoung : cutoff ≤ p.hiLedger + cfg.partitionSize
    · rw [if_pos hyoung] at h
      exact (ih h).skip fun hold => absurd hyoung (Nat.not_le.mpr hold)
    · rw [if_neg hyoung] at h
      cases hprocessed : isFullyProcessed pool p.tableName with
      | none =>
        rw [hprocessed] at h
        cases (Prod.mk.inj h).1
      | some processed =>
        rw [hprocessed] at h
        cases processed with
        | false =>
          refine (ih h).skip fun _ htrue => ?_
          rw [hprocessed] at htrue
          cases htrue
        | true =>
          have hrest := ih h
          refine ⟨fun name hname => ?_, fun name hname => ?_, fun name hname => ?_,
            fun q hq hold hq' haccepts => ?_⟩
          · rcases hrest.old name hname with hacc | ⟨q, hq, hmore⟩
            · split at hacc
              · rename_i hremoved
                rcases List.mem_append.mp hacc with hacc | hp
                · exact Or.inl hacc
                · obtain rfl := List.mem_singleton.mp hp
                  refine Or.inr ⟨p, List.mem_cons_self, rfl, Nat.lt_of_not_le hyoung, hprocessed,
                    fun hchild => ?_⟩
                  exact removePartition_removes hremoved (hrest.children _ hchild)
              · exact Or.inl hacc
            · exact Or.inr ⟨q, List.mem_cons_of_mem _ hq, hmore⟩
          · refine hrest.kept name ?_
            split
            · exact List.mem_append_left _ hname
            · exact hname
          · exact removePartition_children (hrest.children name hname)
          · rcases List.mem_cons.mp hq with rfl | hq
            · refine hrest.kept _ ?_
              rw [if_pos (removePartition_of_accepts haccepts)]
              exact List.mem_append_right _ (List.mem_singleton.mpr rfl)
            · exact hrest.removed q hq hold hq' haccepts

/-- The loop ends if no query fails. -/
theorem dropLoop_ends (h : ∀ name, (pool.hasUnprocessed name).isSome = true) : ∃ dropped db',
    dropLoop cfg pool cutoff detachConcurrently ps acc db = (some dropped, db') := by
  induction ps generalizing acc db with
  | nil => exact ⟨acc, db, rfl⟩
  | cons p rest ih =>
    rw [dropLoop]
    split
    · exact ih
    · obtain ⟨unprocessed, hanswer⟩ := Option.isSome_iff_exists.mp (h p.tableName)
      rw [isFullyProcessed, hanswer]
      cases unprocessed with
      | true => exact ih
      | false => exact ih

/-! ## A cycle -/

/-- The catalogue after `ensureNextPartition` lists what it listed and the next bucket, unless a
relation has that name that is no partition. -/
theorem ensureNextPartition_children
    (h : ensureNextPartition currentLedger cfg pool db = some db') :
    ∀ name, name ∈ db'.children → name ∈ db.children ∨
      name = partitionName (nextBucketLo currentLedger cfg) (nextBucketHi currentLedger cfg) := by
  intro name hname
  rw [ensureNextPartition] at h
  split at h
  · rw [← Option.some.inj h] at hname
    exact Or.inl hname
  · split at h
    · rw [← Option.some.inj h] at hname
      rcases List.mem_cons.mp hname with rfl | hname
      · exact Or.inr rfl
      · exact Or.inl hname
    · cases h

theorem ensureNextPartition_keeps (h : ensureNextPartition currentLedger cfg pool db = some db') :
    ∀ name, name ∈ db.children → name ∈ db'.children := by
  intro name hname
  rw [ensureNextPartition] at h
  split at h
  · rw [← Option.some.inj h]
    exact hname
  · split at h
    · rw [← Option.some.inj h]
      exact List.mem_cons_of_mem _ hname
    · cases h

/-- Dropped are the partitions, fully processed when they are looked at, that end more than the
retention and one partition size before the head. -/
theorem dropOldPartitions_spec
    (h : dropOldPartitions currentLedger cfg pool db = (some dropped, db')) :
    (∀ name ∈ dropped, ∃ p ∈ listPartitions db, p.tableName = name ∧
      p.hiLedger + cfg.partitionSize + cfg.retentionLedgers <
        retentionHead currentLedger (listPartitions db) ∧
      isFullyProcessed pool name = some true ∧ name ∉ db'.children) ∧
    ∀ p ∈ listPartitions db, p.hiLedger + cfg.partitionSize + cfg.retentionLedgers <
        retentionHead currentLedger (listPartitions db) →
      isFullyProcessed pool p.tableName = some true → Accepts pool p.tableName →
        p.tableName ∈ dropped := by
  rw [dropOldPartitions] at h
  by_cases hempty : listPartitions db = []
  · rw [if_pos hempty] at h
    obtain rfl := Option.some.inj (Prod.mk.inj h).1
    rw [hempty]
    exact ⟨by simp, by simp⟩
  · rw [if_neg hempty] at h
    by_cases hshort : retentionHead currentLedger (listPartitions db) ≤ cfg.retentionLedgers
    · rw [if_pos hshort] at h
      obtain rfl := Option.some.inj (Prod.mk.inj h).1
      exact ⟨by simp, fun p _ hold => by omega⟩
    · rw [if_neg hshort] at h
      cases hversion : supportsDetachConcurrently pool with
      | none =>
        rw [hversion] at h
        cases (Prod.mk.inj h).1
      | some detachConcurrently =>
        rw [hversion] at h
        have hspec := dropLoop_spec h
        constructor
        · intro name hname
          rcases hspec.old name hname with hacc | ⟨p, hp, heq, hold, hrest⟩
          · cases hacc
          · exact ⟨p, hp, heq, by omega, hrest⟩
        · exact fun p hp hold => hspec.removed p hp (by omega)

theorem runOnce_partitioned (hpartitioned : db.isPartitioned = true)
    (h : runOnce currentLedger cfg pool db = (some dropped, db')) : ∃ during,
      ensureNextPartition currentLedger cfg pool db = some during ∧
        dropOldPartitions currentLedger cfg pool during = (some dropped, db') := by
  rw [runOnce, if_pos hpartitioned] at h
  cases hensure : ensureNextPartition currentLedger cfg pool db with
  | none =>
    rw [hensure] at h
    cases (Prod.mk.inj h).1
  | some during =>
    rw [hensure] at h
    exact ⟨during, rfl, h⟩

/-- A cycle in which no query fails and the next bucket can be created comes to its end. -/
theorem runOnce_ends (currentLedger : Nat) (cfg : RetentionConfig) (db : Schema)
    (hunprocessed : ∀ name, (pool.hasUnprocessed name).isSome = true)
    (hversion : pool.serverVersionNum.isSome = true)
    (hcreate : ∀ name, pool.accepts (.create name) = true) : ∃ dropped db',
      runOnce currentLedger cfg pool db = (some dropped, db') := by
  have hensure : ∃ during, ensureNextPartition currentLedger cfg pool db = some during := by
    rw [ensureNextPartition]
    split
    · exact ⟨db, rfl⟩
    · rw [if_pos (hcreate _)]
      exact ⟨_, rfl⟩
  obtain ⟨during, hduring⟩ := hensure
  rw [runOnce, hduring]
  split
  · show ∃ dropped db', dropOldPartitions currentLedger cfg pool during = (some dropped, db')
    obtain ⟨versionNum, hnum⟩ := Option.isSome_iff_exists.mp hversion
    rw [dropOldPartitions]
    split
    · exact ⟨[], during, rfl⟩
    · split
      · exact ⟨[], during, rfl⟩
      · rw [supportsDetachConcurrently, hnum]
        exact dropLoop_ends hunprocessed
  · exact ⟨[], db, rfl⟩

/-! ## The window -/

theorem lt_nextBucketLo (currentLedger : Nat) (hsize : 0 < cfg.partitionSize) :
    currentLedger < nextBucketLo currentLedger cfg := by
  rw [nextBucketLo, Nat.mul_comm]
  exact Nat.lt_mul_div_succ currentLedger hsize

/-- With the next bucket as the newest partition, the margin of one bucket makes up for the head
start, if the retention has no larger remainder than the cursor. -/
theorem old_of_bucket {size retention hi : Nat} (haligned : size ∣ hi)
    (hhead : hi + size + retention < (currentLedger / size + 1) * size + size)
    (hremainder : retention % size ≤ currentLedger % size + 1) :
    hi + retention ≤ currentLedger + 1 := by
  obtain ⟨a, rfl⟩ := haligned
  have hretention := Nat.div_add_mod retention size
  have hledger := Nat.div_add_mod currentLedger size
  have hmul : size * (a + 1 + retention / size) < size * (currentLedger / size + 2) := by
    calc size * (a + 1 + retention / size)
        ≤ size * a + size + (size * (retention / size) + retention % size) := by
          rw [Nat.mul_add, Nat.mul_add, Nat.mul_one]
          omega
      _ = size * a + size + retention := by rw [hretention]
      _ < (currentLedger / size + 1) * size + size := hhead
      _ = size * (currentLedger / size + 2) := by rw [← Nat.succ_mul, Nat.mul_comm]
  have hbuckets : a + retention / size ≤ currentLedger / size := by
    have hlt := Nat.lt_of_mul_lt_mul_left hmul
    omega
  calc size * a + retention
      = size * (a + retention / size) + retention % size := by
        rw [Nat.mul_add, Nat.add_assoc, hretention]
    _ ≤ size * (currentLedger / size) + (currentLedger % size + 1) :=
        Nat.add_le_add (Nat.mul_le_mul_left size hbuckets) hremainder
    _ = currentLedger + 1 := by rw [← Nat.add_assoc, hledger]

end

def PartitionInfo.Contains (p : PartitionInfo) (ledger : Nat) : Prop :=
  p.loLedger ≤ ledger ∧ ledger < p.hiLedger

/-- What a cycle drops, `partitions` being those that it finds.  Measured from the retention head
no dropped partition is within the window; measured from the cursor none is either, as long as
no partition lies beyond the next bucket.  A partition far enough behind is dropped. -/
theorem retention_keeps_window {currentLedger : Nat} {cfg : RetentionConfig} {pool : RetentionPool}
    {db db' : Schema} {dropped : List String} (hsize : 0 < cfg.partitionSize)
    (haligned : ∀ p ∈ listPartitions db, cfg.partitionSize ∣ p.loLedger ∧
      cfg.partitionSize ∣ p.hiLedger)
    (hpartitioned : db.isPartitioned = true)
    (h : runOnce currentLedger cfg pool db = (some dropped, db')) :
    ∃ during, ensureNextPartition currentLedger cfg pool db = some during ∧
      (∀ name ∈ dropped, ∃ p ∈ listPartitions during, p.tableName = name ∧
        pool.hasUnprocessed name = some false ∧ name ∉ db'.children ∧
        (∀ ledger, p.Contains ledger → ledger + cfg.retentionLedgers + cfg.partitionSize <
          retentionHead currentLedger (listPartitions during)) ∧
        ((∀ q ∈ listPartitions during, q.hiLedger ≤ nextBucketHi currentLedger cfg) →
          cfg.retentionLedgers % cfg.partitionSize ≤ currentLedger % cfg.partitionSize + 1 →
          ∀ ledger, p.Contains ledger → ledger + cfg.retentionLedgers ≤ currentLedger)) ∧
      ∀ p ∈ listPartitions during,
        p.hiLedger + 2 * cfg.partitionSize + cfg.retentionLedgers < currentLedger →
        pool.hasUnprocessed p.tableName = some false → Accepts pool p.tableName →
        p.tableName ∈ dropped ∧ p.tableName ∉ db'.children := by
  obtain ⟨during, hensure, hdrop⟩ := runOnce_partitioned hpartitioned h
  obtain ⟨hold, hremoved⟩ := dropOldPartitions_spec hdrop
  have hprocessed : ∀ name, isFullyProcessed pool name = some true ↔
      pool.hasUnprocessed name = some false := by
    intro name
    rw [isFullyProcessed]
    cases pool.hasUnprocessed name with
    | none => simp
    | some unprocessed => cases unprocessed <;> simp
  refine ⟨during, hensure, fun name hname => ?_, fun p hp hfar hanswer haccepts => ?_⟩
  · obtain ⟨p, hp, rfl, hbehind, hanswer, hgone⟩ := hold name hname
    refine ⟨p, hp, rfl, (hprocessed _).mp hanswer, hgone, fun ledger hledger => ?_,
      fun hnewest hremainder ledger hledger => ?_⟩
    · have hlt := hledger.2
      omega
    · have hdvd : cfg.partitionSize ∣ p.hiLedger := by
        obtain ⟨relname, hrelname, hparse⟩ := mem_listPartitions.mp hp
        rcases ensureNextPartition_children hensure relname hrelname with hbefore | rfl
        · exact (haligned p (mem_listPartitions.mpr ⟨relname, hbefore, hparse⟩)).2
        · rw [parsePartition_partitionName] at hparse
          rw [← Option.some.inj hparse]
          exact Nat.dvd_add (Nat.dvd_mul_left _ _) (Nat.dvd_refl _)
      have hhead : retentionHead currentLedger (listPartitions during) ≤
          nextBucketHi currentLedger cfg := by
        rw [retentionHead_eq]
        have hlo := lt_nextBucketLo currentLedger hsize
        exact Nat.max_le.mpr ⟨by rw [nextBucketHi]; omega, newestHi_le_iff.mpr hnewest⟩
      have hend := old_of_bucket hdvd (Nat.lt_of_lt_of_le hbehind hhead) hremainder
      have hlt := hledger.2
      omega
  · have hbehind : p.hiLedger + cfg.partitionSize + cfg.retentionLedgers <
        retentionHead currentLedger (listPartitions during) := by
      rw [retentionHead_eq]
      exact Nat.lt_of_lt_of_le (by omega) (Nat.le_max_left _ _)
    have hname := hremoved p hp hbehind ((hprocessed _).mpr hanswer) haccepts
    obtain ⟨-, -, -, -, -, hgone⟩ := hold _ hname
    exact ⟨hname, hgone⟩

/-- The partitions that migration 017 creates. -/
def seededSchema (partitionSize : Nat) : Schema where
  isPartitioned := true
  children := "raw_events_default" :: (List.range 10).map fun i =>
    partitionName (i * partitionSize) ((i + 1) * partitionSize)
  others := []

theorem seeded_aligned {partitionSize : Nat} : ∀ p ∈ listPartitions (seededSchema partitionSize),
    partitionSize ∣ p.loLedger ∧ partitionSize ∣ p.hiLedger := by
  intro p hp
  obtain ⟨relname, hrelname, hparse⟩ := mem_listPartitions.mp hp
  rcases List.mem_cons.mp hrelname with rfl | hrelname
  · have hnone : parsePartition "raw_events_default" = none := by decide
    rw [hnone] at hparse
    cases hparse
  · obtain ⟨i, -, rfl⟩ := List.mem_map.mp hrelname
    rw [parsePartition_partitionName] at hparse
    rw [← Option.some.inj hparse]
    exact ⟨Nat.dvd_mul_left _ _, Nat.dvd_mul_left _ _⟩

/-- A database in which every row is processed and every statement goes through. -/
def quietPool : RetentionPool where
  serverVersionNum := some 130000
  hasUnprocessed := fun _ => some false
  accepts := fun _ => true

/-- With ten buckets of ten ledgers, the cursor at ledger 105 and 30 ledgers to keep. -/
theorem retention_keeps_window_seeded : ∃ dropped db',
    runOnce 105 ⟨30, 10, false⟩ quietPool (seededSchema 10) = (some dropped, db') ∧
    ∃ during, ensureNextPartition 105 ⟨30, 10, false⟩ quietPool (seededSchema 10) = some during ∧
      (∀ name ∈ dropped, ∃ p ∈ listPartitions during, p.tableName = name ∧
        quietPool.hasUnprocessed name = some false ∧ name ∉ db'.children ∧
        (∀ ledger, p.Contains ledger →
          ledger + 30 + 10 < retentionHead 105 (listPartitions during)) ∧
        ((∀ q ∈ listPartitions during, q.hiLedger ≤ nextBucketHi 105 ⟨30, 10, false⟩) →
          30 % 10 ≤ 105 % 10 + 1 → ∀ ledger, p.Contains ledger → ledger + 30 ≤ 105)) ∧
      ∀ p ∈ listPartitions during, p.hiLedger + 2 * 10 + 30 < 105 →
        quietPool.hasUnprocessed p.tableName = some false → Accepts quietPool p.tableName →
        p.tableName ∈ dropped ∧ p.tableName ∉ db'.children := by
  obtain ⟨dropped, db', hrun⟩ := runOnce_ends 105 ⟨30, 10, false⟩ (seededSchema 10)
    (show ∀ name, (quietPool.hasUnprocessed name).isSome = true from fun _ => rfl) rfl
    fun _ => rfl
  exact ⟨dropped, db', hrun, retention_keeps_window (by decide) seeded_aligned rfl hrun⟩

/-- A cycle on the tables of the migration drops buckets that the cursor has not reached yet. -/
theorem seeded_bucket_dropped_early : ∃ dropped db',
    runOnce 10000 defaultRetentionConfig quietPool (seededSchema 1000000) = (some dropped, db') ∧
    partitionName 3000000 4000000 ∈ dropped ∧
    ∃ p ∈ listPartitions (seededSchema 1000000), p.tableName = partitionName 3000000 4000000 ∧
      p.Contains 3000000 ∧ 10000 < 3000000 + defaultRetentionConfig.retentionLedgers := by
  obtain ⟨dropped, db', hrun⟩ := runOnce_ends 10000 defaultRetentionConfig
    (seededSchema 1000000) (show ∀ name, (quietPool.hasUnprocessed name).isSome = true from
      fun _ => rfl) rfl fun _ => rfl
  have hchild : ∀ i < 10, partitionName (i * 1000000) ((i + 1) * 1000000) ∈
      (seededSchema 1000000).children := by
    intro i hi
    exact List.mem_cons_of_mem _ (List.mem_map_of_mem (List.mem_range.mpr hi))
  obtain ⟨during, hensure, hdrop⟩ := runOnce_partitioned rfl hrun
  have hkeeps := ensureNextPartition_keeps hensure
  have hlast := le_retentionHead 10000
    (partition_listed (hkeeps _ (hchild 9 (by decide))))
  refine ⟨dropped, db', hrun, ?_, _, partition_listed (hchild 3 (by decide)), rfl,
    ⟨Nat.le_refl _, by decide⟩, by decide⟩
  refine (dropOldPartitions_spec hdrop).2 _ (partition_listed (hkeeps _ (hchild 3 (by decide))))
    (Nat.lt_of_lt_of_le ?_ hlast) rfl ⟨rfl, fun _ => rfl⟩
  show 4000000 + 1000000 + 4000000 < 10000000
  decide

end Indexer
end Linkora
