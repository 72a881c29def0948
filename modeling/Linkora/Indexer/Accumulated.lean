import Linkora.Indexer.Deltas
import Linkora.Indexer.HexTexts
import Linkora.Lib.Text

/-!
# The books of the state root

Whatever the tables hold when they are read, and whatever the events say, the accumulator of a
table is the exclusive or of the hashes stored for its rows.  So the stored hashes determine the
root, and how the events were cut into batches leaves no trace in it.
-/

namespace Linkora
namespace Indexer

open Linkora.Replay

inductive AccTable where
  | posts
  | follows
  | profiles
  | pools
deriving DecidableEq, Repr

/-- The column `table_name` of a row of hashes. -/
def RowKey.tableName : RowKey → AccTable
  | .post _ => .posts
  | .follow _ _ => .follows
  | .profile _ => .profiles
  | .pool _ => .pools

/-- The column `row_key`: `postKey`, `followKey`, `profileKey` and `poolKey`. -/
def RowKey.text : RowKey → String
  | .post id => "post:" ++ toString id
  | .follow follower followee => "follow:" ++ follower ++ ":" ++ followee
  | .profile address => "profile:" ++ address
  | .pool poolId => "pool:" ++ poolId

def Accumulators.of (acc : Accumulators) : AccTable → Digest
  | .posts => acc.posts
  | .follows => acc.follows
  | .profiles => acc.profiles
  | .pools => acc.pools

/-- What a stored hash adds to the accumulator of a table. -/
def shareOf (name : AccTable) (key : RowKey) (hash : Digest) : Digest :=
  if key.tableName = name then hash else 0

/-- The exclusive or of the hashes stored for the rows of a table. -/
def storedXor (hashes : Table RowKey Digest) (name : AccTable) : Digest :=
  Table.xorAll (shareOf name) hashes

/-- The arguments of a call of `applyStateRootDelta`, and what the tables hold when it reads
them: `scan` is what `bootstrap` finds, should it run, and `db` is where the rows are fetched. -/
structure Update where
  ledgerSequence : Nat
  events : List IngestEvent
  db : Db
  scanned : Db
  scan : Scan
  listed : scan.Of scanned

inductive Call where
  | bootstrap (db : Db) (scan : Scan) (listed : scan.Of db)
  | applyStateRootDelta (update : Update)

def RootState.update (s : RootState) (u : Update) : RootState :=
  applyStateRootDelta s u.scan u.db u.ledgerSequence u.events

def RootState.call (s : RootState) : Call → RootState
  | .bootstrap _ scan _ => s.bootstrap scan
  | .applyStateRootDelta u => s.update u

def RootState.run (calls : List Call) : RootState := calls.foldl RootState.call RootState.empty

/-- What `applyStateRootDelta` returns. -/
def RootState.root (s : RootState) : Digest := rootFromAccumulators s.accumulators

/-! ## Keys as texts -/

/-- Rows with different keys have different texts in `row_key`, as the address of a follower has
no colon. -/
theorem RowKey.text_inj {key key' : RowKey}
    (h : ∀ follower followee, key = .follow follower followee → ':' ∉ follower.toList)
    (h' : ∀ follower followee, key' = .follow follower followee → ':' ∉ follower.toList)
    (htable : key.tableName = key'.tableName) (htext : key.text = key'.text) : key = key' := by
  have hlist := congrArg String.toList htext
  cases key with
  | post id =>
    cases key' with
    | post id' =>
      simp only [RowKey.text, String.toList_append, List.append_cancel_left_eq] at hlist
      have hid : id = id' := Text.toString_nat_injective (String.toList_injective hlist)
      rw [hid]
    | _ => exact AccTable.noConfusion htable
  | follow follower followee =>
    cases key' with
    | follow follower' followee' =>
      simp only [RowKey.text, String.toList_append, List.append_assoc,
        List.append_cancel_left_eq] at hlist
      have hcolon := h follower followee rfl
      have hcolon' := h' follower' followee' rfl
      have hparts := Text.append_cons_inj hcolon hcolon' hlist
      rw [String.toList_injective hparts.1, String.toList_injective hparts.2]
    | _ => exact AccTable.noConfusion htable
  | profile address =>
    cases key' with
    | profile address' =>
      simp only [RowKey.text, String.toList_append, List.append_cancel_left_eq] at hlist
      rw [String.toList_injective hlist]
    | _ => exact AccTable.noConfusion htable
  | pool poolId =>
    cases key' with
    | pool poolId' =>
      simp only [RowKey.text, String.toList_append, List.append_cancel_left_eq] at hlist
      rw [String.toList_injective hlist]
    | _ => exact AccTable.noConfusion htable

/-! ## The books of one update -/

theorem xor_zeroHash (d : Digest) : d ^^^ 0 = d := BitVec.xor_zero

theorem hashAt_shareOf (name : AccTable) (key : RowKey) (stored : Option Digest) :
    Table.hashAt (shareOf name) key stored = shareOf name key (stored.getD 0) := by
  cases stored with
  | none => exact (ite_self 0).symm
  | some hash => rfl

theorem storeHash_eq_patch (t : Table RowKey Digest) (d : RowKey × Digest) :
    storeHash t d = Table.patch t d.1 (if d.2 = 0 then none else some d.2) := by
  rw [storeHash]
  by_cases hzero : d.2 = 0
  · rw [if_pos hzero, if_pos hzero]
    rfl
  · rw [if_neg hzero, if_neg hzero]
    rfl

/-- Storing a hash puts it in the place of the one that was stored, where no row counts as the
zero hash. -/
theorem storedXor_storeHash (t : Table RowKey Digest) (d : RowKey × Digest) (name : AccTable) :
    storedXor (storeHash t d) name =
      storedXor t name ^^^ shareOf name d.1 ((t.lookup d.1).getD 0) ^^^ shareOf name d.1 d.2 := by
  have hnew : (if d.2 = 0 then none else some d.2).getD 0 = d.2 := by
    by_cases hzero : d.2 = 0
    · rw [if_pos hzero, hzero]
      rfl
    · rw [if_neg hzero]
      rfl
  rw [storeHash_eq_patch, storedXor, Table.xorAll_patch, hashAt_shareOf, hashAt_shareOf, hnew]
  rfl

theorem of_xor (acc : Accumulators) (key : RowKey) (hash : Digest) (name : AccTable) :
    (acc.xor key hash).of name = acc.of name ^^^ shareOf name key hash := by
  cases key with
  | post id => cases name <;> simp [Accumulators.xor, Accumulators.of, shareOf, RowKey.tableName]
  | follow follower followee =>
    cases name <;> simp [Accumulators.xor, Accumulators.of, shareOf, RowKey.tableName]
  | profile address =>
    cases name <;> simp [Accumulators.xor, Accumulators.of, shareOf, RowKey.tableName]
  | pool poolId =>
    cases name <;> simp [Accumulators.xor, Accumulators.of, shareOf, RowKey.tableName]

/-- The accumulators are those of the stored hashes. -/
def Balanced (acc : Accumulators) (hashes : Table RowKey Digest) : Prop :=
  ∀ name, acc.of name = storedXor hashes name

/-- One round of the loop over the deltas, where `stored` has the hash of the row as it was read
before the loop. -/
theorem Balanced.applyDelta {acc : Accumulators} {t stored : Table RowKey Digest}
    (h : Balanced acc t) {d : RowKey × Digest} (hold : stored.lookup d.1 = t.lookup d.1) :
    Balanced (applyDelta stored acc d) (storeHash t d) := by
  intro name
  rw [storedXor_storeHash, Indexer.applyDelta, hold, ← h name]
  by_cases hsame : (t.lookup d.1).getD 0 = d.2
  · rw [if_pos hsame, hsame, BitVec.xor_assoc, BitVec.xor_self, BitVec.xor_zero]
  · rw [if_neg hsame, of_xor, of_xor]

theorem lookup_storeHash_of_ne (t : Table RowKey Digest) {d : RowKey × Digest} {key : RowKey}
    (h : key ≠ d.1) : (storeHash t d).lookup key = t.lookup key := by
  rw [storeHash_eq_patch, Table.lookup_patch, if_neg h]

theorem Balanced.foldl {deltas : List (RowKey × Digest)} (hnodup : (deltas.map Prod.fst).Nodup)
    {acc : Accumulators} {t stored : Table RowKey Digest} (h : Balanced acc t)
    (hold : ∀ d ∈ deltas, stored.lookup d.1 = t.lookup d.1) :
    Balanced (deltas.foldl (Indexer.applyDelta stored) acc) (deltas.foldl storeHash t) := by
  induction deltas generalizing acc t with
  | nil => exact h
  | cons d rest ih =>
    rw [List.map_cons, List.nodup_cons] at hnodup
    rw [List.foldl_cons, List.foldl_cons]
    apply ih hnodup.2 (h.applyDelta (hold d List.mem_cons_self))
    intro x hx
    have hne : x.1 ≠ d.1 := by
      intro heq
      have hmem : x.1 ∈ rest.map Prod.fst := List.mem_map_of_mem hx
      rw [heq] at hmem
      exact hnodup.1 hmem
    rw [lookup_storeHash_of_ne t hne]
    exact hold x (List.mem_cons_of_mem d hx)

/-! ## The books of a bootstrap -/

theorem Lists.nodup {κ ρ : Type} {t : Table κ ρ} {l : List (κ × ρ)} (h : Lists t l) :
    (l.map Prod.fst).Nodup := by
  have hkeys : (t.entries.map Sigma.fst).Nodup := Multiset.nodup_keys.mpr t.nodupKeys
  rw [h, Multiset.map_coe, Multiset.coe_nodup, List.map_map] at hkeys
  exact hkeys

theorem Scan.Of.nodup {scan : Scan} {db : Db} (h : scan.Of db) :
    (scan.hashes.map Prod.fst).Nodup := by
  have hkeys : scan.hashes.map Prod.fst =
      (scan.posts.map Prod.fst).map RowKey.post ++
      (scan.follows.map Prod.fst).map (fun pair => RowKey.follow pair.1 pair.2) ++
      (scan.profiles.map Prod.fst).map RowKey.profile ++
      (scan.pools.map Prod.fst).map RowKey.pool := by
    simp only [Scan.hashes, List.map_append, List.map_map]
    rfl
  have hposts := h.posts.nodup.map (f := RowKey.post) fun a b heq => RowKey.post.inj heq
  have hfollows := h.follows.nodup.map (f := fun pair => RowKey.follow pair.1 pair.2)
    fun a b heq => Prod.ext (RowKey.follow.inj heq).1 (RowKey.follow.inj heq).2
  have hprofiles := h.profiles.nodup.map (f := RowKey.profile) fun a b heq => RowKey.profile.inj heq
  have hpools := h.pools.nodup.map (f := RowKey.pool) fun a b heq => RowKey.pool.inj heq
  rw [hkeys]
  refine ((hposts.append hfollows ?_).append hprofiles ?_).append hpools ?_
  all_goals
    intro key hleft hright
    simp only [List.mem_append, List.mem_map] at hleft hright
    grind

/-- The rows that the loops of `bootstrap` write, one after the other. -/
theorem storedXor_foldl_insert {rows : List (RowKey × Digest)}
    (hnodup : (rows.map Prod.fst).Nodup) {t : Table RowKey Digest}
    (hnew : ∀ row ∈ rows, row.1 ∉ t) (name : AccTable) :
    storedXor (rows.foldl (fun t row => t.insert row.1 row.2) t) name =
      rows.foldl (fun acc row => acc ^^^ shareOf name row.1 row.2) (storedXor t name) := by
  induction rows generalizing t with
  | nil => rfl
  | cons row rest ih =>
    rw [List.map_cons, List.nodup_cons] at hnodup
    have hinsert : storedXor (t.insert row.1 row.2) name =
        storedXor t name ^^^ shareOf name row.1 row.2 := by
      rw [storedXor, Table.xorAll_insert_of_notMem _ (hnew row List.mem_cons_self),
        BitVec.xor_comm]
      rfl
    rw [List.foldl_cons, List.foldl_cons, ← hinsert]
    apply ih hnodup.2
    intro x hx hmem
    rcases Finmap.mem_insert.mp hmem with heq | hmem
    · exact hnodup.1 (heq ▸ List.mem_map_of_mem hx)
    · exact hnew x (List.mem_cons_of_mem row hx) hmem

/-- The loop over the rows of one table adds to the accumulator of that table only. -/
theorem foldl_shareOf {κ ρ : Type} (rows : List (κ × ρ)) (hash : κ → ρ → Digest)
    (key : κ → RowKey) {own : AccTable} (hown : ∀ k, (key k).tableName = own) (name : AccTable)
    (d : Digest) :
    (rows.map fun row => (key row.1, hash row.1 row.2)).foldl
        (fun acc row => acc ^^^ shareOf name row.1 row.2) d =
      if own = name then (rowHashes hash rows).foldl (fun acc h => acc ^^^ h) d else d := by
  induction rows generalizing d with
  | nil => exact (ite_self d).symm
  | cons row rest ih =>
    rw [List.map_cons, List.foldl_cons, ih, shareOf, hown]
    by_cases heq : own = name
    · rw [if_pos heq, if_pos heq, if_pos heq]
      rfl
    · rw [if_neg heq, if_neg heq, if_neg heq, xor_zeroHash]

theorem balanced_bootstrap {scan : Scan} {db : Db} (h : scan.Of db) (s : RootState) :
    Balanced (s.bootstrap scan).accumulators (s.bootstrap scan).hashes := by
  intro name
  have hrows : storedXor (s.bootstrap scan).hashes name =
      scan.hashes.foldl (fun acc row => acc ^^^ shareOf name row.1 row.2) 0 :=
    storedXor_foldl_insert h.nodup (fun row _ => Finmap.notMem_empty) name
  rw [hrows, Scan.hashes, List.foldl_append, List.foldl_append, List.foldl_append,
    foldl_shareOf scan.posts hashPostRow RowKey.post (fun _ => rfl),
    foldl_shareOf scan.follows hashFollowRow (fun pair => RowKey.follow pair.1 pair.2)
      (fun _ => rfl),
    foldl_shareOf scan.profiles hashProfileRow RowKey.profile (fun _ => rfl),
    foldl_shareOf scan.pools hashPoolRow RowKey.pool (fun _ => rfl)]
  cases name with
  | posts => rfl
  | follows => rfl
  | profiles => rfl
  | pools => rfl

/-! ## Runs -/

/-- The hashes that an update has stored before it looks at the events. -/
def RootState.started (s : RootState) (u : Update) : RootState :=
  if s.bootstrapped then s else s.bootstrap u.scan

def Update.deltas (u : Update) : List (RowKey × Digest) :=
  (extractDeltas u.events).map (resolve u.db)

theorem Update.keys_deltas (u : Update) :
    u.deltas.map Prod.fst = (extractDeltas u.events).map Prod.fst := by
  rw [Update.deltas, List.map_map]
  rfl

theorem Update.nodup_deltas (u : Update) : (u.deltas.map Prod.fst).Nodup := by
  rw [u.keys_deltas]
  exact nodup_extractDeltas u.events

theorem hashes_update (s : RootState) (u : Update) :
    (s.update u).hashes = u.deltas.foldl storeHash (s.started u).hashes := rfl

theorem balanced_call {s : RootState} (h : Balanced s.accumulators s.hashes) (call : Call) :
    Balanced (s.call call).accumulators (s.call call).hashes := by
  cases call with
  | bootstrap db scan listed => exact balanced_bootstrap listed s
  | applyStateRootDelta u =>
    have hstarted : Balanced (s.started u).accumulators (s.started u).hashes := by
      rw [RootState.started]
      by_cases hboot : s.bootstrapped = true
      · rw [if_pos hboot]
        exact h
      · rw [if_neg hboot]
        exact balanced_bootstrap u.listed s
    exact hstarted.foldl u.nodup_deltas fun d _ => rfl

theorem balanced_run (calls : List Call) :
    Balanced (RootState.run calls).accumulators (RootState.run calls).hashes := by
  apply foldl_invariant (P := fun s : RootState => Balanced s.accumulators s.hashes)
  · exact fun s call _ h => balanced_call h call
  · intro name
    cases name with
    | posts => rfl
    | follows => rfl
    | profiles => rfl
    | pools => rfl

theorem root_congr {s s' : RootState} (h : Balanced s.accumulators s.hashes)
    (h' : Balanced s'.accumulators s'.hashes) (hhashes : s.hashes = s'.hashes) :
    s.root = s'.root := by
  have hof : ∀ name, s.accumulators.of name = s'.accumulators.of name := by
    intro name
    rw [h name, h' name, hhashes]
  have hacc : s.accumulators = s'.accumulators := by
    rw [Accumulators.mk.injEq]
    exact ⟨hof .posts, hof .follows, hof .profiles, hof .pools⟩
  rw [RootState.root, RootState.root, hacc]

/-- The exclusive or in the terms of the code: over the texts of the stored hashes, whatever the
order of the rows. -/
theorem toHex_storedXor {hashes : Table RowKey Digest} {rows : List (RowKey × Digest)}
    (h : Lists hashes rows) (name : AccTable) :
    toHex (storedXor hashes name) =
      ((rows.filter fun row => row.1.tableName = name).map fun row => toHex row.2).foldl xorHex
        zeroHash := by
  have hfilter : ∀ (rows : List (RowKey × Digest)) (d : Digest),
      (rowHashes (shareOf name) rows).foldl (fun acc h => acc ^^^ h) d =
        ((rows.filter fun row => row.1.tableName = name).map Prod.snd).foldl
          (fun acc h => acc ^^^ h) d := by
    intro rows
    induction rows with
    | nil => exact fun d => rfl
    | cons row rest ih =>
      intro d
      show (rowHashes (shareOf name) rest).foldl (fun acc h => acc ^^^ h)
        (d ^^^ shareOf name row.1 row.2) = _
      rw [ih, List.filter_cons, shareOf]
      by_cases heq : row.1.tableName = name
      · rw [if_pos heq, if_pos (decide_eq_true heq)]
        rfl
      · rw [if_neg heq, if_neg (by simpa using heq), xor_zeroHash]
  rw [storedXor, ← xorRows_rowHashes (shareOf name) h, xorRows, hfilter, ← toHex_zero,
    ← foldl_xorHex, List.map_map]
  rfl

/-! ## Rows that updates touch -/

/-- The events that the row of a key takes its hash from. -/
def touching (key : RowKey) (events : List IngestEvent) : List IngestEvent :=
  events.filter fun e => e.touched = some key

def Update.Touches (u : Update) (key : RowKey) : Prop := touching key u.events ≠ []

theorem touching_append (key : RowKey) (events events' : List IngestEvent) :
    touching key (events ++ events') = touching key events ++ touching key events' :=
  List.filter_append ..

/-- What the last of the events that touch a row stores for it. -/
def lastHash (db : Db) (key : RowKey) (events : List IngestEvent) : Option Digest :=
  let delta := (touching key events).getLast?.bind (·.body.delta)
  let newHash := ((delta.bind Prod.snd).or (fetchCurrentRowHash db key)).getD 0
  if newHash = 0 then none else some newHash

theorem touching_of_mem {events : List IngestEvent} {delta : Delta}
    (h : delta ∈ extractDeltas events) :
    touching delta.1 events ≠ [] ∧
      (touching delta.1 events).getLast?.bind (·.body.delta) = some delta := by
  obtain ⟨before, e, after, rfl, he, hafter⟩ := last_of_mem_extractDeltas h
  have htouched : e.touched = some delta.1 := by
    rw [IngestEvent.touched, he]
    rfl
  have hnone : touching delta.1 after = [] := by
    rw [touching, List.filter_eq_nil_iff]
    exact fun x hx heq => hafter x hx (of_decide_eq_true heq)
  have hlast : touching delta.1 (before ++ e :: after) = touching delta.1 before ++ [e] := by
    rw [touching_append]
    congr 1
    rw [touching, List.filter_cons, if_pos (decide_eq_true htouched)]
    exact congrArg (e :: ·) hnone
  rw [hlast]
  constructor
  · simp
  · rw [List.getLast?_concat]
    exact he

theorem touching_eq_nil {events : List IngestEvent} {key : RowKey}
    (h : key ∉ (extractDeltas events).map Prod.fst) : touching key events = [] := by
  rw [touching, List.filter_eq_nil_iff]
  exact fun e he heq => h (mem_keys_extractDeltas he (of_decide_eq_true heq))

theorem lookup_foldl_storeHash_of_notMem {deltas : List (RowKey × Digest)} {key : RowKey}
    (h : key ∉ deltas.map Prod.fst) (t : Table RowKey Digest) :
    (deltas.foldl storeHash t).lookup key = t.lookup key := by
  induction deltas generalizing t with
  | nil => rfl
  | cons d rest ih =>
    rw [List.map_cons, List.mem_cons, not_or] at h
    rw [List.foldl_cons, ih h.2, lookup_storeHash_of_ne t h.1]

theorem lookup_foldl_storeHash_of_mem {deltas : List (RowKey × Digest)}
    (hnodup : (deltas.map Prod.fst).Nodup) {d : RowKey × Digest} (h : d ∈ deltas)
    (t : Table RowKey Digest) :
    (deltas.foldl storeHash t).lookup d.1 = if d.2 = 0 then none else some d.2 := by
  induction deltas generalizing t with
  | nil => exact absurd h List.not_mem_nil
  | cons x rest ih =>
    rw [List.map_cons, List.nodup_cons] at hnodup
    rw [List.foldl_cons]
    rcases List.mem_cons.mp h with rfl | hrest
    · rw [lookup_foldl_storeHash_of_notMem hnodup.1, storeHash_eq_patch, Table.lookup_patch,
        if_pos rfl]
    · exact ih hnodup.2 hrest _

/-- A row keeps its hash over an update that does not touch it, and gets that of the last event
otherwise. -/
theorem lookup_update (s : RootState) (u : Update) (key : RowKey) :
    (touching key u.events = [] →
      (s.update u).hashes.lookup key = (s.started u).hashes.lookup key) ∧
    (u.Touches key → (s.update u).hashes.lookup key = lastHash u.db key u.events) := by
  rw [hashes_update]
  by_cases hmem : key ∈ (extractDeltas u.events).map Prod.fst
  · obtain ⟨delta, hdelta, rfl⟩ := List.mem_map.mp hmem
    obtain ⟨hne, hlast⟩ := touching_of_mem hdelta
    refine ⟨fun hnil => absurd hnil hne, fun _ => ?_⟩
    have hmem : resolve u.db delta ∈ u.deltas := List.mem_map_of_mem hdelta
    rw [lastHash, hlast]
    exact lookup_foldl_storeHash_of_mem u.nodup_deltas hmem _
  · have hnil := touching_eq_nil hmem
    rw [← u.keys_deltas] at hmem
    exact ⟨fun _ => lookup_foldl_storeHash_of_notMem hmem _, fun hne => absurd hnil hne⟩

/-! ## Runs of updates -/

def RootState.updates (s : RootState) (us : List Update) : RootState :=
  us.foldl RootState.update s

/-- The events of all updates of a run. -/
def allEvents (us : List Update) : List IngestEvent := us.flatMap (·.events)

theorem updates_concat (s : RootState) (us : List Update) (u : Update) :
    s.updates (us ++ [u]) = (s.updates us).update u := List.foldl_concat ..

theorem allEvents_concat (us : List Update) (u : Update) :
    allEvents (us ++ [u]) = allEvents us ++ u.events := by
  rw [allEvents, List.flatMap_append, List.flatMap_singleton]
  rfl

theorem bootstrapped_started (s : RootState) (u : Update) :
    (s.started u).bootstrapped = true := by
  rw [RootState.started]
  by_cases hboot : s.bootstrapped = true
  · rw [if_pos hboot]
    exact hboot
  · rw [if_neg hboot]
    rfl

theorem bootstrapped_updates {s : RootState} (h : s.bootstrapped = true) (us : List Update) :
    (s.updates us).bootstrapped = true :=
  foldl_invariant (f := RootState.update) (P := fun s : RootState => s.bootstrapped = true)
    (fun s u _ _ => bootstrapped_started s u) h

theorem started_of_bootstrapped {s : RootState} (h : s.bootstrapped = true) (u : Update) :
    s.started u = s := if_pos h

/-- The first update of a run does the scan, if it is still to be done. -/
theorem updates_started (s : RootState) (u : Update) (rest : List Update) :
    (s.started u).updates (u :: rest) = s.updates (u :: rest) := by
  have hfirst : (s.started u).update u = s.update u := by
    show applyStateRootDelta _ u.scan u.db u.ledgerSequence u.events =
      applyStateRootDelta _ u.scan u.db u.ledgerSequence u.events
    rw [applyStateRootDelta, if_pos (bootstrapped_started s u)]
    rfl
  exact congrArg (rest.foldl RootState.update) hfirst

section

variable {s : RootState} {key : RowKey}

theorem lookup_updates_of_untouched (hboot : s.bootstrapped = true) {us : List Update}
    (h : touching key (allEvents us) = []) :
    (s.updates us).hashes.lookup key = s.hashes.lookup key := by
  induction us using List.reverseRecOn with
  | nil => rfl
  | append_singleton us u ih =>
    rw [allEvents_concat, touching_append, List.append_eq_nil_iff] at h
    have hlast := (lookup_update (s.updates us) u key).1 h.2
    rw [started_of_bootstrapped (bootstrapped_updates hboot us)] at hlast
    rw [updates_concat, hlast, ih h.1]

/-- The hash of a row that is touched comes from the last event that touches it, and from the
tables at the update that the event belongs to. -/
theorem lookup_updates_of_touched (hboot : s.bootstrapped = true) {us : List Update}
    (h : touching key (allEvents us) ≠ []) : ∃ u ∈ us, u.Touches key ∧
      (s.updates us).hashes.lookup key = lastHash u.db key (allEvents us) := by
  induction us using List.reverseRecOn with
  | nil => exact absurd rfl h
  | append_singleton us u ih =>
    rw [updates_concat, allEvents_concat]
    rw [allEvents_concat, touching_append] at h
    by_cases hu : touching key u.events = []
    · rw [hu, List.append_nil] at h
      obtain ⟨x, hx, htouches, hlookup⟩ := ih h
      refine ⟨x, List.mem_append_left _ hx, htouches, ?_⟩
      have hlast := (lookup_update (s.updates us) u key).1 hu
      rw [started_of_bootstrapped (bootstrapped_updates hboot us)] at hlast
      rw [hlast, hlookup, lastHash, lastHash, touching_append, hu, List.append_nil]
    · refine ⟨u, List.mem_append_right _ List.mem_cons_self, hu, ?_⟩
      rw [(lookup_update (s.updates us) u key).2 hu, lastHash, lastHash, touching_append,
        List.getLast?_append_of_ne_nil _ hu]

end

/-- Two runs of updates do the same work from a state: the events of each row come in the same
order, and the row is the same in the tables at the updates that touch it.  If the scan is still
to be done, the rows that are not touched are the same when it is done. -/
structure SameWork (s : RootState) (us us' : List Update) : Prop where
  events : ∀ key, touching key (allEvents us) = touching key (allEvents us')
  rows : ∀ key, ∀ u ∈ us, ∀ u' ∈ us', u.Touches key → u'.Touches key → u.db.SameRow u'.db key
  start : s.bootstrapped = true ∨ ∃ u rest u' rest', us = u :: rest ∧ us' = u' :: rest' ∧
    ∀ key, touching key (allEvents us) = [] → u.scanned.SameRow u'.scanned key

theorem fetchCurrentRowHash_congr {db db' : Db} {key : RowKey} (h : db.SameRow db' key) :
    fetchCurrentRowHash db key = fetchCurrentRowHash db' key := by
  cases key with
  | post id => exact congrArg (fun o : Option PostRow => o.map (hashPostRow id)) h
  | follow follower followee =>
    exact congrArg (fun o : Option Nat => o.map (hashFollowRow (follower, followee))) h
  | profile address =>
    exact congrArg (fun o : Option ProfileRow => o.map (hashProfileRow address)) h
  | pool poolId => exact congrArg (fun o : Option PoolRow => o.map (hashPoolRow poolId)) h

theorem lastHash_congr {db db' : Db} {key : RowKey} {events events' : List IngestEvent}
    (hrow : db.SameRow db' key) (hevents : touching key events = touching key events') :
    lastHash db key events = lastHash db' key events' := by
  rw [lastHash, lastHash, hevents, fetchCurrentRowHash_congr hrow]

theorem lookup_foldl_insert {rows : List (RowKey × Digest)} (hnodup : (rows.map Prod.fst).Nodup)
    (t : Table RowKey Digest) (key : RowKey) :
    (key ∉ rows.map Prod.fst →
      (rows.foldl (fun t row => t.insert row.1 row.2) t).lookup key = t.lookup key) ∧
    ∀ hash, (key, hash) ∈ rows →
      (rows.foldl (fun t row => t.insert row.1 row.2) t).lookup key = some hash := by
  induction rows generalizing t with
  | nil => exact ⟨fun _ => rfl, fun hash hmem => absurd hmem List.not_mem_nil⟩
  | cons row rest ih =>
    rw [List.map_cons, List.nodup_cons] at hnodup
    rw [List.foldl_cons]
    constructor
    · intro hkey
      rw [List.map_cons, List.mem_cons, not_or] at hkey
      rw [(ih hnodup.2 _).1 hkey.2, Table.lookup_insert, if_neg hkey.1]
    · intro hash hmem
      rcases List.mem_cons.mp hmem with rfl | hrest
      · rw [(ih hnodup.2 _).1 hnodup.1, Table.lookup_insert, if_pos rfl]
      · exact (ih hnodup.2 _).2 hash hrest

theorem lookup_bootstrap {scan : Scan} {db : Db} (h : scan.Of db) (s : RootState) (key : RowKey) :
    (s.bootstrap scan).hashes.lookup key = fetchCurrentRowHash db key := by
  have hrows := lookup_foldl_insert h.nodup ∅ key
  cases hfetch : fetchCurrentRowHash db key with
  | none =>
    refine (hrows.1 fun hmem => ?_).trans (Finmap.lookup_empty key)
    obtain ⟨row, hrow, rfl⟩ := List.mem_map.mp hmem
    rw [(mem_scan_hashes h).mp hrow] at hfetch
    exact Option.some_ne_none _ hfetch
  | some hash => exact hrows.2 hash ((mem_scan_hashes (d := (key, hash)) h).mpr hfetch)

theorem hashes_of_sameWork_of_bootstrapped {s s' : RootState} {us us' : List Update}
    (hboot : s.bootstrapped = true) (hboot' : s'.bootstrapped = true)
    (hevents : ∀ key, touching key (allEvents us) = touching key (allEvents us'))
    (hrows : ∀ key, ∀ u ∈ us, ∀ u' ∈ us', u.Touches key → u'.Touches key →
      u.db.SameRow u'.db key)
    (hstart : ∀ key, touching key (allEvents us) = [] →
      s.hashes.lookup key = s'.hashes.lookup key) :
    (s.updates us).hashes = (s'.updates us').hashes := by
  apply Finmap.ext_lookup
  intro key
  by_cases hkey : touching key (allEvents us) = []
  · have hkey' : touching key (allEvents us') = [] := (hevents key).symm.trans hkey
    rw [lookup_updates_of_untouched hboot hkey, lookup_updates_of_untouched hboot' hkey',
      hstart key hkey]
  · have hkey' : touching key (allEvents us') ≠ [] := (hevents key).symm.trans_ne hkey
    obtain ⟨u, hu, htouches, hlookup⟩ := lookup_updates_of_touched hboot hkey
    obtain ⟨u', hu', htouches', hlookup'⟩ := lookup_updates_of_touched hboot' hkey'
    rw [hlookup, hlookup']
    exact lastHash_congr (hrows key u hu u' hu' htouches htouches') (hevents key)

theorem hashes_of_sameWork {s : RootState} {us us' : List Update} (h : SameWork s us us') :
    (s.updates us).hashes = (s.updates us').hashes := by
  rcases h.start with hboot | ⟨u, rest, u', rest', rfl, rfl, hscanned⟩
  · exact hashes_of_sameWork_of_bootstrapped hboot hboot h.events h.rows fun _ _ => rfl
  · by_cases hboot : s.bootstrapped = true
    · exact hashes_of_sameWork_of_bootstrapped hboot hboot h.events h.rows fun _ _ => rfl
    · rw [← updates_started s u rest, ← updates_started s u' rest']
      apply hashes_of_sameWork_of_bootstrapped (bootstrapped_started s u)
        (bootstrapped_started s u') h.events h.rows
      intro key hkey
      rw [RootState.started, RootState.started, if_neg hboot, if_neg hboot,
        lookup_bootstrap u.listed, lookup_bootstrap u'.listed]
      exact fetchCurrentRowHash_congr (hscanned key hkey)

section

variable {s : RootState} {u v u' v' w : Update}

/-- Two batches may be made one. -/
theorem sameWork_merge (hboot : s.bootstrapped = true) (hevents : w.events = u.events ++ v.events)
    (hu : ∀ key, u.Touches key → u.db.SameRow w.db key)
    (hv : ∀ key, v.Touches key → v.db.SameRow w.db key) : SameWork s [u, v] [w] := by
  constructor
  · intro key
    simp [allEvents, hevents]
  · intro key x hx x' hx' htouches _
    rw [List.mem_singleton.mp hx']
    rcases List.mem_pair.mp hx with rfl | rfl
    · exact hu key htouches
    · exact hv key htouches
  · exact Or.inl hboot

/-- Two batches that touch different rows may change places. -/
theorem sameWork_swap (hboot : s.bootstrapped = true)
    (hdifferent : ∀ key, u.Touches key → ¬v.Touches key) (hu : u'.events = u.events)
    (hv : v'.events = v.events) (hurow : ∀ key, u.Touches key → u.db.SameRow u'.db key)
    (hvrow : ∀ key, v.Touches key → v.db.SameRow v'.db key) : SameWork s [u, v] [v', u'] := by
  have htouches : ∀ key, (u'.Touches key ↔ u.Touches key) ∧ (v'.Touches key ↔ v.Touches key) := by
    intro key
    simp only [Update.Touches, hu, hv, and_self]
  constructor
  · intro key
    simp only [allEvents, List.flatMap_cons, List.flatMap_nil, List.append_nil, touching_append, hu,
      hv]
    by_cases hkey : u.Touches key
    · have hnil : touching key v.events = [] := not_not.mp (hdifferent key hkey)
      rw [hnil, List.append_nil, List.nil_append]
    · have hnil : touching key u.events = [] := not_not.mp hkey
      rw [hnil, List.append_nil, List.nil_append]
  · intro key x hx x' hx' hxkey hxkey'
    rcases List.mem_pair.mp hx with rfl | rfl
    · rcases List.mem_pair.mp hx' with rfl | rfl
      · exact absurd ((htouches key).2.mp hxkey') (hdifferent key hxkey)
      · exact hurow key hxkey
    · rcases List.mem_pair.mp hx' with rfl | rfl
      · exact hvrow key hxkey
      · exact absurd hxkey (hdifferent key ((htouches key).1.mp hxkey'))
  · exact Or.inl hboot

end

theorem run_append_updates (calls : List Call) (us : List Update) :
    RootState.run (calls ++ us.map .applyStateRootDelta) = (RootState.run calls).updates us := by
  rw [RootState.run, List.foldl_append, List.foldl_map]
  rfl

/-- After any calls the accumulator of a table is the exclusive or of the hashes stored for its
rows.  So runs that end with the same stored hashes end with the same root, which is what the
last update has written; and updates that do the same work, however the events are cut into
batches and in whatever order the batches come, leave the same hashes and the same root. -/
theorem accumulators_are_stored_hashes :
    (∀ (calls : List Call) (name : AccTable) (rows : List (RowKey × Digest)),
      Lists (RootState.run calls).hashes rows →
      toHex ((RootState.run calls).accumulators.of name) =
        ((rows.filter fun row => row.1.tableName = name).map fun row => toHex row.2).foldl xorHex
          zeroHash) ∧
    (∀ calls calls' : List Call, (RootState.run calls).hashes = (RootState.run calls').hashes →
      (RootState.run calls).root = (RootState.run calls').root) ∧
    (∀ (calls : List Call) (u : Update),
      (RootState.run (calls ++ [.applyStateRootDelta u])).states.lookup u.ledgerSequence =
        some (RootState.run (calls ++ [.applyStateRootDelta u])).root) ∧
    ∀ (calls : List Call) (us us' : List Update), SameWork (RootState.run calls) us us' →
      (RootState.run (calls ++ us.map .applyStateRootDelta)).hashes =
        (RootState.run (calls ++ us'.map .applyStateRootDelta)).hashes ∧
      (RootState.run (calls ++ us.map .applyStateRootDelta)).root =
        (RootState.run (calls ++ us'.map .applyStateRootDelta)).root := by
  refine ⟨?_, ?_, ?_, ?_⟩
  · intro calls name rows hrows
    rw [balanced_run calls name]
    exact toHex_storedXor hrows name
  · exact fun calls calls' h => root_congr (balanced_run calls) (balanced_run calls') h
  · intro calls u
    have hrun : RootState.run (calls ++ [.applyStateRootDelta u]) =
        (RootState.run calls).update u := run_append_updates calls [u]
    rw [hrun]
    exact Finmap.lookup_insert _
  · intro calls us us' h
    have hhashes := hashes_of_sameWork h
    rw [← run_append_updates, ← run_append_updates] at hhashes
    exact ⟨hhashes, root_congr (balanced_run _) (balanced_run _) hhashes⟩

/-- Two follows, in one batch or in one each. -/
theorem root_of_two_follows :
    let scan : Scan := { posts := [], follows := [], profiles := [], pools := [] }
    let listed : scan.Of Db.empty := ⟨rfl, rfl, rfl, rfl⟩
    let db : Db :=
      { Db.empty with follows := (Finmap.singleton ("GA", "GB") 7).insert ("GA", "GC") 8 }
    let first : IngestEvent := ⟨7, "tx1", .follow "GA" "GB"⟩
    let second : IngestEvent := ⟨8, "tx2", .follow "GA" "GC"⟩
    let u : Update := ⟨7, [first], db, Db.empty, scan, listed⟩
    let v : Update := ⟨8, [second], db, Db.empty, scan, listed⟩
    let w : Update := ⟨8, [first, second], db, Db.empty, scan, listed⟩
    let start : Call := .bootstrap Db.empty scan listed
    let s := RootState.run [start, .applyStateRootDelta w]
    toHex s.accumulators.follows =
        xorHex (xorHex zeroHash (toHex (hashFollowRow ("GA", "GB") 7)))
          (toHex (hashFollowRow ("GA", "GC") 8)) ∧
      (RootState.run [start, .applyStateRootDelta u, .applyStateRootDelta v]).root = s.root := by
  intro scan listed db first second u v w start s
  constructor
  · let rows : List (RowKey × Digest) := [(.follow "GA" "GB", hashFollowRow ("GA", "GB") 7),
      (.follow "GA" "GC", hashFollowRow ("GA", "GC") 8)]
    have hrows : Lists s.hashes rows := by decide +kernel
    have hxor :=
      accumulators_are_stored_hashes.1 [start, .applyStateRootDelta w] .follows rows hrows
    have hall : rows.filter (fun row => row.1.tableName = .follows) = rows := rfl
    rw [hall] at hxor
    exact hxor
  · have hwork : SameWork (RootState.run [start]) [u, v] [w] :=
      sameWork_merge rfl rfl (fun key _ => Db.SameRow.refl db key) fun key _ =>
        Db.SameRow.refl db key
    exact (accumulators_are_stored_hashes.2.2.2 [start] [u, v] [w] hwork).2

end Indexer
end Linkora
