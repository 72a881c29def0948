import Linkora.Indexer.Pipeline
import Linkora.Indexer.StateRoot

/-!
# The incremental state root

When a batch is committed the accumulators are brought up to date from the events alone: which
rows they touch is read off the events, and the hash of a touched row is fetched from the
tables, but for a created post, whose row is taken to be as the event describes it.
-/

namespace Linkora
namespace Indexer

open Linkora.Replay

/-- The key of a row in `state_root_row_hashes`, with the table it belongs to. -/
inductive RowKey where
  | post (id : Nat)
  | follow (follower followee : String)
  | profile (address : String)
  | pool (poolId : String)
deriving DecidableEq, Repr

abbrev Delta := RowKey × Option Digest

/-- The row that `post_created` is taken to leave. -/
def freshPost (author content : String) : PostRow :=
  { author, content, tipTotal := 0, likeCount := 0, deletedAt := none }

/-- The row that `extractDeltas` takes an event to change, with its new hash unless that is to be
fetched. -/
def EventBody.delta : EventBody → Option Delta
  | .postCreated id author content =>
    some (.post id, some (hashPostRow id (freshPost author content)))
  | .postDeleted postId => some (.post postId, none)
  | .tip _ postId _ _ => some (.post postId, none)
  | .like _ postId => some (.post postId, none)
  | .follow follower followee =>
    if follower = "" ∨ followee = "" then none else some (.follow follower followee, none)
  | .unfollow follower followee =>
    if follower = "" ∨ followee = "" then none else some (.follow follower followee, none)
  | .profileSet user _ _ => if user = "" then none else some (.profile user, none)
  | .profileDeleted user => if user = "" then none else some (.profile user, none)
  | .poolCreated poolId _ _ _ => if poolId = "" then none else some (.pool poolId, none)
  | .poolDeposit poolId _ => if poolId = "" then none else some (.pool poolId, none)
  | .poolWithdraw poolId _ => if poolId = "" then none else some (.pool poolId, none)
  | _ => none

/-- `map.set`: a key that is there keeps its place. -/
def setDelta (deltas : List Delta) (delta : Delta) : List Delta :=
  if delta.1 ∈ deltas.map Prod.fst then
    deltas.map fun d => if d.1 = delta.1 then delta else d
  else
    deltas ++ [delta]

def extractDeltas (events : List IngestEvent) : List Delta :=
  (events.filterMap (·.body.delta)).foldl setDelta []

def fetchCurrentRowHash (db : Db) : RowKey → Option Digest
  | .post id => (db.social.posts.lookup id).map (hashPostRow id)
  | .follow follower followee =>
    (db.follows.lookup (follower, followee)).map (hashFollowRow (follower, followee))
  | .profile address => (db.profiles.lookup address).map (hashProfileRow address)
  | .pool poolId => (db.pools.lookup poolId).map (hashPoolRow poolId)

/-- `state_root_accumulators` with its sentinel, `state_root_row_hashes` and `indexer_state`. -/
structure RootState where
  bootstrapped : Bool
  accumulators : Accumulators
  hashes : Table RowKey Digest
  states : Table Nat Digest

def RootState.empty : RootState :=
  { bootstrapped := false, accumulators := ⟨0, 0, 0, 0⟩, hashes := ∅, states := ∅ }

/-- The rows that `bootstrap` hashes, table after table. -/
def Scan.hashes (scan : Scan) : List (RowKey × Digest) :=
  (scan.posts.map fun row => (RowKey.post row.1, hashPostRow row.1 row.2)) ++
  (scan.follows.map fun row => (RowKey.follow row.1.1 row.1.2, hashFollowRow row.1 row.2)) ++
  (scan.profiles.map fun row => (RowKey.profile row.1, hashProfileRow row.1 row.2)) ++
  (scan.pools.map fun row => (RowKey.pool row.1, hashPoolRow row.1 row.2))

def RootState.bootstrap (s : RootState) (scan : Scan) : RootState :=
  { s with
    bootstrapped := true
    accumulators := Indexer.bootstrap scan
    hashes := scan.hashes.foldl (fun t row => t.insert row.1 row.2) ∅ }

/-- Put a hash into the accumulator of its table, or take it out. -/
def Accumulators.xor (acc : Accumulators) (key : RowKey) (hash : Digest) : Accumulators :=
  match key with
  | .post _ => { acc with posts := acc.posts ^^^ hash }
  | .follow _ _ => { acc with follows := acc.follows ^^^ hash }
  | .profile _ => { acc with profiles := acc.profiles ^^^ hash }
  | .pool _ => { acc with pools := acc.pools ^^^ hash }

/-- The loop over the deltas: the zero hash stands for no row. -/
def applyDelta (stored : Table RowKey Digest) (acc : Accumulators) (delta : RowKey × Digest) :
    Accumulators :=
  let oldHash := (stored.lookup delta.1).getD 0
  if oldHash = delta.2 then acc else (acc.xor delta.1 oldHash).xor delta.1 delta.2

def storeHash (stored : Table RowKey Digest) (delta : RowKey × Digest) : Table RowKey Digest :=
  if delta.2 = 0 then stored.erase delta.1 else stored.insert delta.1 delta.2

/-- `if (delta.newHash === undefined)`: fetch the hash of the row. -/
def resolve (db : Db) (delta : Delta) : RowKey × Digest :=
  (delta.1, (delta.2.or (fetchCurrentRowHash db delta.1)).getD 0)

/-- `scan` is what the queries of `bootstrap` return, should it run. -/
def applyStateRootDelta (s : RootState) (scan : Scan) (db : Db) (ledgerSequence : Nat)
    (events : List IngestEvent) : RootState :=
  let s' := if s.bootstrapped then s else s.bootstrap scan
  let deltas := (extractDeltas events).map (resolve db)
  let acc := deltas.foldl (applyDelta s'.hashes) s'.accumulators
  { s' with
    accumulators := acc
    hashes := deltas.foldl storeHash s'.hashes
    states := s'.states.insert ledgerSequence (rootFromAccumulators acc) }

/-! ## Deltas of a batch -/

theorem setDelta_keys (deltas : List Delta) (delta : Delta) :
    (setDelta deltas delta).map Prod.fst =
      if delta.1 ∈ deltas.map Prod.fst then deltas.map Prod.fst
      else deltas.map Prod.fst ++ [delta.1] := by
  rw [setDelta]
  by_cases h : delta.1 ∈ deltas.map Prod.fst
  · rw [if_pos h, if_pos h, List.map_map]
    apply List.map_congr_left
    intro d _
    show (if d.1 = delta.1 then delta else d).1 = d.1
    by_cases hd : d.1 = delta.1
    · rw [if_pos hd, hd]
    · rw [if_neg hd]
  · rw [if_neg h, if_neg h, List.map_append]
    rfl

theorem nodup_setDelta {deltas : List Delta} (h : (deltas.map Prod.fst).Nodup) (delta : Delta) :
    ((setDelta deltas delta).map Prod.fst).Nodup := by
  rw [setDelta_keys]
  by_cases hmem : delta.1 ∈ deltas.map Prod.fst
  · rw [if_pos hmem]
    exact h
  · rw [if_neg hmem]
    exact List.nodup_append.mpr ⟨h, List.nodup_singleton _, fun a ha b hb hab => hmem (by
      rw [← List.mem_singleton.mp hb, ← hab]
      exact ha)⟩

theorem mem_setDelta {deltas : List Delta} {delta d : Delta} :
    d ∈ setDelta deltas delta → d = delta ∨ d ∈ deltas ∧ d.1 ≠ delta.1 := by
  intro h
  rw [setDelta] at h
  by_cases hmem : delta.1 ∈ deltas.map Prod.fst
  · rw [if_pos hmem] at h
    obtain ⟨d', hd', rfl⟩ := List.mem_map.mp h
    by_cases hkey : d'.1 = delta.1
    · rw [if_pos hkey]
      exact Or.inl rfl
    · rw [if_neg hkey]
      exact Or.inr ⟨hd', hkey⟩
  · rw [if_neg hmem] at h
    rcases List.mem_append.mp h with hd | hd
    · refine Or.inr ⟨hd, fun hkey => hmem ?_⟩
      rw [← hkey]
      exact List.mem_map_of_mem hd
    · exact Or.inl (List.mem_singleton.mp hd)

theorem nodup_extractDeltas (events : List IngestEvent) :
    ((extractDeltas events).map Prod.fst).Nodup :=
  foldl_invariant (P := fun deltas : List Delta => (deltas.map Prod.fst).Nodup)
    (fun _ delta _ h => nodup_setDelta h delta) List.nodup_nil

/-- The key of the row that an event is taken to change. -/
def IngestEvent.touched (e : IngestEvent) : Option RowKey := e.body.delta.map Prod.fst

theorem extractDeltas_append (events : List IngestEvent) (e : IngestEvent) :
    extractDeltas (events ++ [e]) =
      match e.body.delta with
      | none => extractDeltas events
      | some delta => setDelta (extractDeltas events) delta := by
  rw [extractDeltas, List.filterMap_append, List.foldl_append]
  cases h : e.body.delta with
  | none => simp only [List.filterMap_cons, h, List.filterMap_nil, List.foldl_nil, extractDeltas]
  | some delta =>
    simp only [List.filterMap_cons, h, List.filterMap_nil, List.foldl_cons, List.foldl_nil,
      extractDeltas]

theorem mem_keys_extractDeltas {events : List IngestEvent} {e : IngestEvent} (he : e ∈ events)
    {key : RowKey} (hkey : e.touched = some key) : key ∈ (extractDeltas events).map Prod.fst := by
  induction events using List.reverseRecOn with
  | nil => exact absurd he List.not_mem_nil
  | append_singleton events x ih =>
    rw [extractDeltas_append]
    rcases List.mem_append.mp he with he | he
    · cases hx : x.body.delta with
      | none => exact ih he
      | some delta =>
        show key ∈ (setDelta (extractDeltas events) delta).map Prod.fst
        rw [setDelta_keys]
        split
        · exact ih he
        · exact List.mem_append_left _ (ih he)
    · rw [List.mem_singleton.mp he] at hkey
      obtain ⟨delta, hdelta, rfl⟩ := Option.map_eq_some_iff.mp hkey
      rw [hdelta]
      show delta.1 ∈ (setDelta (extractDeltas events) delta).map Prod.fst
      rw [setDelta_keys]
      split
      · assumption
      · exact List.mem_append_right _ (List.mem_singleton_self _)

/-- A delta comes from the last event that touches its row. -/
theorem last_of_mem_extractDeltas {events : List IngestEvent} {delta : Delta}
    (h : delta ∈ extractDeltas events) : ∃ before e after, events = before ++ e :: after ∧
      e.body.delta = some delta ∧ ∀ x ∈ after, x.touched ≠ some delta.1 := by
  induction events using List.reverseRecOn with
  | nil => exact absurd h List.not_mem_nil
  | append_singleton events x ih =>
    rw [extractDeltas_append] at h
    have hearlier : delta ∈ extractDeltas events → x.touched ≠ some delta.1 →
        ∃ before e after, events ++ [x] = before ++ e :: after ∧
          e.body.delta = some delta ∧ ∀ y ∈ after, y.touched ≠ some delta.1 := by
      intro hmem hx
      obtain ⟨before, e, after, rfl, he, hafter⟩ := ih hmem
      refine ⟨before, e, after ++ [x], ?_, he, ?_⟩
      · simp only [List.append_assoc, List.cons_append]
      · intro y hy
        rcases List.mem_append.mp hy with hy | hy
        · exact hafter y hy
        · rw [List.mem_singleton.mp hy]
          exact hx
    cases hx : x.body.delta with
    | none =>
      rw [hx] at h
      refine hearlier h ?_
      rw [IngestEvent.touched, hx]
      exact (Option.some_ne_none _).symm
    | some delta' =>
      rw [hx] at h
      rcases mem_setDelta h with rfl | ⟨hmem, hne⟩
      · exact ⟨events, x, [], rfl, hx, fun y hy => absurd hy List.not_mem_nil⟩
      · refine hearlier hmem ?_
        rw [IngestEvent.touched, hx]
        exact fun hkey => hne (Option.some.inj hkey).symm

/-! ## Rows -/

/-- The exclusive or of the hashes of the rows of each table. -/
def tableHashes (db : Db) : Accumulators where
  posts := Table.xorAll hashPostRow db.social.posts
  follows := Table.xorAll hashFollowRow db.follows
  profiles := Table.xorAll hashProfileRow db.profiles
  pools := Table.xorAll hashPoolRow db.pools

/-- What the row of a key contributes. -/
def rowHash (db : Db) (key : RowKey) : Digest := (fetchCurrentRowHash db key).getD 0

def Db.SameRow (db db' : Db) : RowKey → Prop
  | .post id => db.social.posts.lookup id = db'.social.posts.lookup id
  | .follow follower followee =>
    db.follows.lookup (follower, followee) = db'.follows.lookup (follower, followee)
  | .profile address => db.profiles.lookup address = db'.profiles.lookup address
  | .pool poolId => db.pools.lookup poolId = db'.pools.lookup poolId

/-- The tables of `db` with the row of `db'` at a key. -/
def Db.patchRow (db db' : Db) : RowKey → Db
  | .post id =>
    { db with social :=
      { db.social with
        posts := Table.patch db.social.posts id (db'.social.posts.lookup id) } }
  | .follow follower followee =>
    { db with follows :=
      Table.patch db.follows (follower, followee) (db'.follows.lookup (follower, followee)) }
  | .profile address =>
    { db with profiles := Table.patch db.profiles address (db'.profiles.lookup address) }
  | .pool poolId => { db with pools := Table.patch db.pools poolId (db'.pools.lookup poolId) }

theorem rowHash_congr {db db' : Db} {key : RowKey} (h : db.SameRow db' key) :
    rowHash db key = rowHash db' key := by
  cases key with
  | post id => exact congrArg (fun o : Option PostRow => (o.map (hashPostRow id)).getD 0) h
  | follow follower followee =>
    exact congrArg (fun o : Option Nat => (o.map (hashFollowRow (follower, followee))).getD 0) h
  | profile address =>
    exact congrArg (fun o : Option ProfileRow => (o.map (hashProfileRow address)).getD 0) h
  | pool poolId => exact congrArg (fun o : Option PoolRow => (o.map (hashPoolRow poolId)).getD 0) h

theorem tableHashes_congr {db db' : Db} (h : ∀ key, db.SameRow db' key) :
    tableHashes db = tableHashes db' := by
  have hposts : db.social.posts = db'.social.posts :=
    Finmap.ext_lookup fun id => h (.post id)
  have hfollows : db.follows = db'.follows :=
    Finmap.ext_lookup fun pair => h (.follow pair.1 pair.2)
  have hprofiles : db.profiles = db'.profiles :=
    Finmap.ext_lookup fun address => h (.profile address)
  have hpools : db.pools = db'.pools := Finmap.ext_lookup fun poolId => h (.pool poolId)
  rw [tableHashes, tableHashes, hposts, hfollows, hprofiles, hpools]

theorem sameRow_patchRow_of_ne (db db' : Db) {key key' : RowKey} (h : key' ≠ key) :
    (db.patchRow db' key).SameRow db key' := by
  cases key with
  | post id =>
    cases key' with
    | post id' =>
      refine (Table.lookup_patch _ id id' _).trans (if_neg fun heq => h ?_)
      rw [heq]
    | _ => rfl
  | follow follower followee =>
    cases key' with
    | follow follower' followee' =>
      refine (Table.lookup_patch _ _ (follower', followee') _).trans (if_neg fun heq => h ?_)
      rw [(Prod.mk.inj heq).1, (Prod.mk.inj heq).2]
    | _ => rfl
  | profile address =>
    cases key' with
    | profile address' =>
      refine (Table.lookup_patch _ address address' _).trans (if_neg fun heq => h ?_)
      rw [heq]
    | _ => rfl
  | pool poolId =>
    cases key' with
    | pool poolId' =>
      refine (Table.lookup_patch _ poolId poolId' _).trans (if_neg fun heq => h ?_)
      rw [heq]
    | _ => rfl

theorem sameRow_patchRow_self (db db' : Db) (key : RowKey) :
    (db.patchRow db' key).SameRow db' key := by
  cases key with
  | post id => exact (Table.lookup_patch _ id id _).trans (if_pos rfl)
  | follow follower followee =>
    exact (Table.lookup_patch _ (follower, followee) (follower, followee) _).trans (if_pos rfl)
  | profile address => exact (Table.lookup_patch _ address address _).trans (if_pos rfl)
  | pool poolId => exact (Table.lookup_patch _ poolId poolId _).trans (if_pos rfl)

theorem Db.SameRow.trans {db₁ db₂ db₃ : Db} {key : RowKey} (h : db₁.SameRow db₂ key)
    (h' : db₂.SameRow db₃ key) : db₁.SameRow db₃ key := by
  cases key with
  | post id => exact Eq.trans h h'
  | follow follower followee => exact Eq.trans h h'
  | profile address => exact Eq.trans h h'
  | pool poolId => exact Eq.trans h h'

/-- Replacing a row takes its hash out and puts the new one in. -/
theorem tableHashes_patchRow (db db' : Db) (key : RowKey) :
    tableHashes (db.patchRow db' key) =
      ((tableHashes db).xor key (rowHash db key)).xor key (rowHash db' key) := by
  have hmap : ∀ {κ ρ : Type} (hash : κ → ρ → Digest) (k : κ) (o : Option ρ),
      Table.hashAt hash k o = (o.map (hash k)).getD 0 := by
    intro κ ρ hash k o
    cases o with
    | none => rfl
    | some row => rfl
  cases key with
  | post id =>
    simp only [tableHashes, Db.patchRow, Table.xorAll_patch, hmap]
    rfl
  | follow follower followee =>
    simp only [tableHashes, Db.patchRow, Table.xorAll_patch, hmap]
    rfl
  | profile address =>
    simp only [tableHashes, Db.patchRow, Table.xorAll_patch, hmap]
    rfl
  | pool poolId =>
    simp only [tableHashes, Db.patchRow, Table.xorAll_patch, hmap]
    rfl

theorem Accumulators.xor_xor_self (acc : Accumulators) (key : RowKey) (hash : Digest) :
    (acc.xor key hash).xor key hash = acc := by
  have hself : ∀ x : Digest, x ^^^ hash ^^^ hash = x := by
    intro x
    rw [BitVec.xor_assoc, BitVec.xor_self, BitVec.xor_zero]
  cases key with
  | post id => simp only [Accumulators.xor, hself]
  | follow follower followee => simp only [Accumulators.xor, hself]
  | profile address => simp only [Accumulators.xor, hself]
  | pool poolId => simp only [Accumulators.xor, hself]

/-! ## One update -/

/-- The accumulators follow the tables when every row that differs is among the deltas, each with
its hash before and its hash after. -/
theorem foldl_applyDelta {stored : Table RowKey Digest} {db db' : Db}
    {deltas : List (RowKey × Digest)} (hnodup : (deltas.map Prod.fst).Nodup)
    (hold : ∀ d ∈ deltas, (stored.lookup d.1).getD 0 = rowHash db d.1)
    (hnew : ∀ d ∈ deltas, d.2 = rowHash db' d.1)
    (hsame : ∀ key ∉ deltas.map Prod.fst, db.SameRow db' key) :
    deltas.foldl (applyDelta stored) (tableHashes db) = tableHashes db' := by
  induction deltas generalizing db with
  | nil => exact tableHashes_congr fun key => hsame key List.not_mem_nil
  | cons d rest ih =>
    rw [List.map_cons, List.nodup_cons] at hnodup
    have hstep : applyDelta stored (tableHashes db) d = tableHashes (db.patchRow db' d.1) := by
      rw [tableHashes_patchRow, applyDelta, hold d List.mem_cons_self, hnew d List.mem_cons_self]
      by_cases heq : rowHash db d.1 = rowHash db' d.1
      · rw [if_pos heq, heq, Accumulators.xor_xor_self]
      · rw [if_neg heq]
    rw [List.foldl_cons, hstep]
    apply ih hnodup.2
    · intro x hx
      have hne : x.1 ≠ d.1 := fun heq => hnodup.1 (heq ▸ List.mem_map_of_mem hx)
      rw [hold x (List.mem_cons_of_mem d hx), rowHash_congr (sameRow_patchRow_of_ne db db' hne)]
    · exact fun x hx => hnew x (List.mem_cons_of_mem d hx)
    · intro key hkey
      by_cases heq : key = d.1
      · rw [heq]
        exact sameRow_patchRow_self db db' d.1
      · refine (sameRow_patchRow_of_ne db db' heq).trans (hsame key ?_)
        rw [List.map_cons, List.mem_cons]
        exact fun h => h.elim heq hkey

/-- Storing hashes one after the other, where those of one key agree. -/
theorem lookup_foldl_store {store : Table RowKey Digest → RowKey × Digest → Table RowKey Digest}
    (hstore : ∀ t d key, ((store t d).lookup key).getD 0 =
      if key = d.1 then d.2 else (t.lookup key).getD 0)
    {rows : List (RowKey × Digest)} {key : RowKey} {hash : Digest}
    (hrows : ∀ d ∈ rows, d.1 = key → d.2 = hash) (t : Table RowKey Digest) :
    ((rows.foldl store t).lookup key).getD 0 =
      if key ∈ rows.map Prod.fst then hash else (t.lookup key).getD 0 := by
  induction rows generalizing t with
  | nil => rfl
  | cons d rest ih =>
    rw [List.foldl_cons, ih (fun x hx => hrows x (List.mem_cons_of_mem d hx)), hstore,
      List.map_cons]
    by_cases hrest : key ∈ rest.map Prod.fst
    · rw [if_pos hrest, if_pos (List.mem_cons_of_mem d.1 hrest)]
    · rw [if_neg hrest]
      by_cases hd : key = d.1
      · rw [if_pos hd, if_pos (hd ▸ List.mem_cons_self), hrows d List.mem_cons_self hd.symm]
      · rw [if_neg hd, if_neg fun h => (List.mem_cons.mp h).elim hd hrest]

theorem lookup_storeHash (t : Table RowKey Digest) (d : RowKey × Digest) (key : RowKey) :
    ((storeHash t d).lookup key).getD 0 = if key = d.1 then d.2 else (t.lookup key).getD 0 := by
  rw [storeHash]
  by_cases hzero : d.2 = 0
  · rw [if_pos hzero, Table.lookup_erase]
    by_cases hkey : key = d.1
    · rw [if_pos hkey, if_pos hkey, hzero]
      rfl
    · rw [if_neg hkey, if_neg hkey]
  · rw [if_neg hzero, Table.lookup_insert]
    by_cases hkey : key = d.1
    · rw [if_pos hkey, if_pos hkey]
      rfl
    · rw [if_neg hkey, if_neg hkey]

/-- The stored state of the root belongs to the tables. -/
structure RootState.Of (s : RootState) (db : Db) : Prop where
  accumulators : s.accumulators = tableHashes db
  hashes : ∀ key, (s.hashes.lookup key).getD 0 = rowHash db key

theorem Lists.mem_iff {κ ρ : Type} [DecidableEq κ] {t : Table κ ρ} {l : List (κ × ρ)}
    (h : Lists t l) {k : κ} {r : ρ} : (k, r) ∈ l ↔ t.lookup k = some r := by
  rw [Finmap.lookup_eq_some_iff, h, Multiset.mem_coe, List.mem_map]
  constructor
  · exact fun hr => ⟨(k, r), hr, rfl⟩
  · intro hr
    obtain ⟨⟨k', r'⟩, hr, heq⟩ := hr
    cases heq
    exact hr

theorem mem_scan_hashes {scan : Scan} {db : Db} (h : scan.Of db) {d : RowKey × Digest} :
    d ∈ scan.hashes ↔ fetchCurrentRowHash db d.1 = some d.2 := by
  have hmap : ∀ {κ ρ : Type} [DecidableEq κ] {t : Table κ ρ} {l : List (κ × ρ)}
      (hash : κ → ρ → Digest), Lists t l → ∀ k x,
      (∃ row ∈ l, row.1 = k ∧ hash row.1 row.2 = x) ↔ (t.lookup k).map (hash k) = some x := by
    intro κ ρ _ t l hash hl k x
    rw [Option.map_eq_some_iff]
    constructor
    · intro hrow
      obtain ⟨⟨k', r⟩, hmem, rfl, hx⟩ := hrow
      exact ⟨r, hl.mem_iff.mp hmem, hx⟩
    · intro hrow
      obtain ⟨r, hlookup, hx⟩ := hrow
      exact ⟨(k, r), hl.mem_iff.mpr hlookup, rfl, hx⟩
  obtain ⟨key, x⟩ := d
  cases key with
  | post id =>
    rw [fetchCurrentRowHash, ← hmap hashPostRow h.posts]
    simp [Scan.hashes]
  | follow follower followee =>
    rw [fetchCurrentRowHash, ← hmap hashFollowRow h.follows]
    simp [Scan.hashes]
  | profile address =>
    rw [fetchCurrentRowHash, ← hmap hashProfileRow h.profiles]
    simp [Scan.hashes]
  | pool poolId =>
    rw [fetchCurrentRowHash, ← hmap hashPoolRow h.pools]
    simp [Scan.hashes]

theorem of_bootstrap {scan : Scan} {db : Db} (h : scan.Of db) (s : RootState) :
    (s.bootstrap scan).Of db := by
  constructor
  · exact bootstrap_eq h
  · intro key
    have hstore : ∀ (t : Table RowKey Digest) (d : RowKey × Digest) (k : RowKey),
        ((t.insert d.1 d.2).lookup k).getD 0 = if k = d.1 then d.2 else (t.lookup k).getD 0 := by
      intro t d k
      rw [Table.lookup_insert]
      by_cases hk : k = d.1
      · rw [if_pos hk, if_pos hk]
        rfl
      · rw [if_neg hk, if_neg hk]
    have hrows : ∀ d ∈ scan.hashes, d.1 = key → d.2 = rowHash db key := by
      intro d hd hkey
      rw [rowHash, ← hkey, (mem_scan_hashes h).mp hd]
      rfl
    refine (lookup_foldl_store hstore hrows ∅).trans ?_
    by_cases hmem : key ∈ scan.hashes.map Prod.fst
    · rw [if_pos hmem]
    · rw [if_neg hmem]
      cases hfetch : fetchCurrentRowHash db key with
      | none =>
        rw [rowHash, hfetch]
        rfl
      | some hash =>
        have hscan := (mem_scan_hashes (d := (key, hash)) h).mpr hfetch
        exact absurd (List.mem_map_of_mem hscan) hmem

theorem RootState.Of.update {s : RootState} {db db' : Db} (h : s.Of db)
    {deltas : List (RowKey × Digest)} (hnodup : (deltas.map Prod.fst).Nodup)
    (hnew : ∀ d ∈ deltas, d.2 = rowHash db' d.1)
    (hsame : ∀ key ∉ deltas.map Prod.fst, db.SameRow db' key) :
    deltas.foldl (applyDelta s.hashes) s.accumulators = tableHashes db' ∧
      ∀ key, ((deltas.foldl storeHash s.hashes).lookup key).getD 0 = rowHash db' key := by
  constructor
  · rw [h.accumulators]
    exact foldl_applyDelta hnodup (fun d _ => h.hashes d.1) hnew hsame
  · intro key
    rw [lookup_foldl_store lookup_storeHash fun d hd hkey => hkey ▸ hnew d hd]
    by_cases hmem : key ∈ deltas.map Prod.fst
    · rw [if_pos hmem]
    · rw [if_neg hmem, h.hashes key, rowHash_congr (hsame key hmem)]

/-! ## Rows that a batch changes -/

/-- The row that an event names. -/
def EventBody.row : EventBody → Option RowKey
  | .postCreated id _ _ => some (.post id)
  | .postDeleted postId => some (.post postId)
  | .postRemovedByModeration postId => some (.post postId)
  | .tip _ postId _ _ => some (.post postId)
  | .like _ postId => some (.post postId)
  | .follow follower followee => some (.follow follower followee)
  | .unfollow follower followee => some (.follow follower followee)
  | .profileSet user _ _ => some (.profile user)
  | .profileDeleted user => some (.profile user)
  | .poolCreated poolId _ _ _ => some (.pool poolId)
  | .poolDeposit poolId _ => some (.pool poolId)
  | .poolWithdraw poolId _ => some (.pool poolId)
  | .poolAdminAdded poolId _ => some (.pool poolId)
  | .poolAdminRemoved poolId _ => some (.pool poolId)
  | _ => none

/-- The row of an event that is left out of the deltas though its handler writes to it. -/
def EventBody.overlooked : EventBody → Option RowKey
  | .postRemovedByModeration postId => some (.post postId)
  | .poolAdminAdded poolId _ => some (.pool poolId)
  | .poolAdminRemoved poolId _ => some (.pool poolId)
  | _ => none

section Rows

variable {db : Db} {e : IngestEvent}

theorem lookup_posts_write {id : Nat} (h : e.body.row ≠ some (.post id)) :
    db.social.posts.lookup id = (db.write e).social.posts.lookup id := by
  obtain ⟨ledger, tx, body⟩ := e
  have hne : ∀ postId, some (RowKey.post postId) ≠ some (RowKey.post id) → id ≠ postId := by
    intro postId h heq
    exact h (by rw [heq])
  have hupdate : ∀ postId (f : PostRow → PostRow),
      some (RowKey.post postId) ≠ some (RowKey.post id) →
      db.social.posts.lookup id = (Table.update db.social.posts postId f).lookup id := by
    intro postId f h
    rw [Table.lookup_update, if_neg (hne postId h)]
  cases body with
  | postCreated postId author content =>
    exact ((Table.lookup_insertNew _ postId id _).trans (if_neg (hne postId h))).symm
  | postDeleted postId => exact hupdate postId _ h
  | postRemovedByModeration postId => exact hupdate postId _ h
  | tip tipper postId amount fee =>
    show db.social.posts.lookup id =
      (db.social.handleTip tx tipper postId amount fee).posts.lookup id
    rw [PostTables.handleTip]
    by_cases htx : tx ∈ db.social.tips
    · rw [if_pos htx]
    · rw [if_neg htx]
      exact hupdate postId _ h
  | like user postId =>
    show db.social.posts.lookup id = (db.social.handleLike tx user postId).posts.lookup id
    rw [PostTables.handleLike]
    by_cases hlike : (postId, user) ∈ db.social.likes
    · rw [if_pos hlike]
    · rw [if_neg hlike]
      exact hupdate postId _ h
  | _ => rfl

theorem lookup_follows_write {a b : String} (h : e.body.row ≠ some (.follow a b)) :
    db.follows.lookup (a, b) = (db.write e).follows.lookup (a, b) := by
  obtain ⟨ledger, tx, body⟩ := e
  refine Eq.symm ((Db.lookup_writeFollows _ _ _).trans ?_)
  have hne : ∀ follower followee,
      some (RowKey.follow follower followee) ≠ some (RowKey.follow a b) →
      (a, b) ≠ (follower, followee) := by
    intro follower followee h heq
    exact h (by rw [(Prod.mk.inj heq).1, (Prod.mk.inj heq).2])
  cases body with
  | follow follower followee => exact if_neg (hne follower followee h)
  | unfollow follower followee => exact if_neg (hne follower followee h)
  | _ => rfl

theorem lookup_profiles_write {address : String} (h : e.body.row ≠ some (.profile address)) :
    db.profiles.lookup address = (db.write e).profiles.lookup address := by
  obtain ⟨ledger, tx, body⟩ := e
  refine Eq.symm ((Db.lookup_writeProfiles _ _ _).trans ?_)
  have hne : ∀ user, some (RowKey.profile user) ≠ some (RowKey.profile address) →
      address ≠ user := by
    intro user h heq
    exact h (by rw [heq])
  cases body with
  | profileSet user username creatorToken => exact if_neg (hne user h)
  | profileDeleted user => exact if_neg (hne user h)
  | _ => rfl

theorem lookup_pools_write {poolId : String} (h : e.body.row ≠ some (.pool poolId)) :
    db.pools.lookup poolId = (db.write e).pools.lookup poolId := by
  obtain ⟨ledger, tx, body⟩ := e
  refine Eq.symm ((Db.lookup_writePools _ _ _).trans (Db.poolCell_of_subject poolId ?_ _))
  intro hs
  have hrow : ∀ poolId', some (Subject.pool poolId') = some (Subject.pool poolId) →
      some (RowKey.pool poolId') = some (RowKey.pool poolId) := by
    intro poolId' hs
    rw [Subject.pool.inj (Option.some.inj hs)]
  cases body with
  | poolCreated poolId' token admins threshold => exact h (hrow poolId' hs)
  | poolDeposit poolId' amount => exact h (hrow poolId' hs)
  | poolWithdraw poolId' amount => exact h (hrow poolId' hs)
  | poolAdminAdded poolId' newAdmin => exact h (hrow poolId' hs)
  | poolAdminRemoved poolId' removedAdmin => exact h (hrow poolId' hs)
  | postCreated id author content => exact Subject.noConfusion (Option.some.inj hs)
  | postDeleted id => exact Subject.noConfusion (Option.some.inj hs)
  | postRemovedByModeration id => exact Subject.noConfusion (Option.some.inj hs)
  | tip tipper id amount fee => exact Subject.noConfusion (Option.some.inj hs)
  | like user id => exact Subject.noConfusion (Option.some.inj hs)
  | _ => exact absurd hs.symm (Option.some_ne_none _)

/-- An event writes to no row but the one it names. -/
theorem sameRow_write {key : RowKey} (h : e.body.row ≠ some key) :
    db.SameRow (db.write e) key := by
  cases key with
  | post id => exact lookup_posts_write h
  | follow a b => exact lookup_follows_write h
  | profile address => exact lookup_profiles_write h
  | pool poolId => exact lookup_pools_write h

end Rows

/-! ## Deltas that are made -/

section Guards

variable {p q : Prop} [Decidable p] [Decidable q] {key : RowKey} {message message' : String}

/-- A handler that does not ask for a field it has lets the delta through. -/
theorem key_of_guard {o : Option String} (h : (if p then some message else o) = none)
    (hq : q → p) :
    (if q then none else some (key, (none : Option Digest))).map Prod.fst = some key := by
  by_cases hp : p
  · rw [if_pos hp] at h
    exact absurd h (Option.some_ne_none _)
  · rw [if_neg fun h => hp (hq h)]
    rfl

theorem key_of_guards (h : (if p then some message else if q then some message' else none) = none) :
    (if p ∨ q then none else some (key, (none : Option Digest))).map Prod.fst = some key := by
  by_cases hp : p
  · rw [if_pos hp] at h
    exact absurd h (Option.some_ne_none _)
  · rw [if_neg hp] at h
    exact key_of_guard h fun h => h.resolve_left hp

end Guards

/-- Apart from the overlooked rows, and the deletion of a profile without an address, a delta is
made for every row that an event names. -/
theorem touched_or_overlooked {e : IngestEvent} (hwf : e.body.missing = none)
    (hdeleted : e.body ≠ .profileDeleted "") :
    e.touched = e.body.row ∨ e.body.overlooked = e.body.row := by
  obtain ⟨ledger, tx, body⟩ := e
  cases body with
  | follow follower followee => exact Or.inl (key_of_guards hwf)
  | unfollow follower followee => exact Or.inl (key_of_guards hwf)
  | profileSet user username creatorToken => exact Or.inl (key_of_guard hwf id)
  | profileDeleted user =>
    left
    show (if user = "" then none else some (RowKey.profile user, (none : Option Digest))).map
      Prod.fst = some (RowKey.profile user)
    rw [if_neg fun h => hdeleted (by rw [h])]
    rfl
  | poolCreated poolId token admins threshold => exact Or.inl (key_of_guard hwf id)
  | poolDeposit poolId amount => exact Or.inl (key_of_guard hwf id)
  | poolWithdraw poolId amount => exact Or.inl (key_of_guard hwf id)
  | postRemovedByModeration postId => exact Or.inr rfl
  | poolAdminAdded poolId newAdmin => exact Or.inr rfl
  | poolAdminRemoved poolId removedAdmin => exact Or.inr rfl
  | _ => exact Or.inl rfl

theorem lookup_writePools_congr {t t' : Table String PoolRow} {poolId : String}
    (e : IngestEvent) (h : t.lookup poolId = t'.lookup poolId) :
    (Db.writePools t e).lookup poolId = (Db.writePools t' e).lookup poolId := by
  rw [Db.lookup_writePools, Db.lookup_writePools, h]

/-- On rows that are the same an overlooked event does the same. -/
theorem sameRow_write_congr {db db' : Db} {e : IngestEvent} {key : RowKey}
    (he : e.body.overlooked = some key) (h : db.SameRow db' key) :
    (db.write e).SameRow (db'.write e) key := by
  obtain ⟨ledger, tx, body⟩ := e
  cases body with
  | postRemovedByModeration postId =>
    rw [← Option.some.inj he] at h ⊢
    show (Table.update _ postId _).lookup postId = (Table.update _ postId _).lookup postId
    rw [Table.lookup_update, Table.lookup_update,
      show db.social.posts.lookup postId = db'.social.posts.lookup postId from h]
  | poolAdminAdded poolId newAdmin =>
    rw [← Option.some.inj he] at h ⊢
    exact lookup_writePools_congr _ h
  | poolAdminRemoved poolId removedAdmin =>
    rw [← Option.some.inj he] at h ⊢
    exact lookup_writePools_congr _ h
  | _ => exact absurd he.symm (Option.some_ne_none _)

theorem Db.SameRow.refl (db : Db) (key : RowKey) : db.SameRow db key := by
  cases key with
  | post id => rfl
  | follow follower followee => rfl
  | profile address => rfl
  | pool poolId => rfl

/-- An event whose row no delta is made for leaves the row as it is in the tables before the
batch: the post is not there or deleted, the pool is not there or has the admins and the ledger
of the update. -/
def Noticed (db : Db) (events : List IngestEvent) : Prop :=
  ∀ e ∈ events, ∀ key, e.body.overlooked = some key →
    (∃ x ∈ events, x.touched = some key) ∨ db.SameRow (db.write e) key

/-- The last event with a delta for a post describes the row that the batch leaves, if it is the
creation of the post. -/
def Described (db : Db) (events : List IngestEvent) : Prop :=
  ∀ before e after, events = before ++ e :: after → ∀ id author content,
    e.body = .postCreated id author content → (∀ x ∈ after, x.touched ≠ some (.post id)) →
    (events.foldl Db.write db).social.posts.lookup id = some (freshPost author content)

/-- Rows without a delta are not changed by the batch. -/
theorem sameRow_foldl {db : Db} {events : List IngestEvent} (hwf : WellFormed events)
    (hprofiles : db.profiles.lookup "" = none) (hnoticed : Noticed db events) {key : RowKey}
    (hkey : ∀ x ∈ events, x.touched ≠ some key) : db.SameRow (events.foldl Db.write db) key := by
  apply foldl_invariant (P := (db.SameRow · key)) _ (Db.SameRow.refl db key)
  intro db' e he h
  by_cases hrow : e.body.row = some key
  · by_cases hover : e.body.overlooked = some key
    · rcases hnoticed e he key hover with ⟨x, hx, htouched⟩ | hsame
      · exact absurd htouched (hkey x hx)
      · exact hsame.trans (sameRow_write_congr hover h)
    · by_cases hdeleted : e.body = .profileDeleted ""
      · -- No profile is stored without an address.
        rw [hdeleted] at hrow
        rw [← Option.some.inj hrow] at h ⊢
        have hnone : db'.profiles.lookup "" = none := (show _ = _ from h).symm.trans hprofiles
        show db.profiles.lookup "" = (Db.writeProfiles db'.profiles e).lookup ""
        rw [Db.lookup_writeProfiles, Db.profileCell, hdeleted, hprofiles]
        exact (if_pos rfl).symm
      · rcases touched_or_overlooked (hwf e he) hdeleted with hcase | hcase
        · exact absurd (hcase.trans hrow) (hkey e he)
        · exact absurd (hcase.trans hrow) hover
  · exact h.trans (sameRow_write hrow)

theorem lookup_profiles_foldl {db : Db} {events : List IngestEvent} (hwf : WellFormed events)
    (h : db.profiles.lookup "" = none) :
    (events.foldl Db.write db).profiles.lookup "" = none := by
  apply foldl_invariant (P := fun db : Db => db.profiles.lookup "" = none) _ h
  intro db' e he h
  show (Db.writeProfiles db'.profiles e).lookup "" = none
  rw [Db.lookup_writeProfiles]
  have hmissing := hwf e he
  obtain ⟨ledger, tx, body⟩ := e
  cases body with
  | profileSet user username creatorToken =>
    have huser : user ≠ "" := by
      intro huser
      rw [EventBody.missing, if_pos huser] at hmissing
      exact absurd hmissing (Option.some_ne_none _)
    exact (if_neg huser.symm).trans h
  | profileDeleted user =>
    show (if "" = user then none else db'.profiles.lookup "") = none
    rw [h, ite_self]
  | _ => exact h

/-! ## Runs -/

/-- The tables and the state of the root beside them. -/
structure Indexed where
  db : Db
  roots : RootState

/-- `Math.max` over the ledgers of a batch. -/
def newCursor (events : List IngestEvent) : Nat :=
  events.foldl (fun m e => max m e.ledgerSequence) 0

/-- A batch is committed, then the root is updated. -/
inductive Indexed.Step (s : Indexed) (events : List IngestEvent) : Indexed → Prop where
  | commit {db : Db} {scan : Scan} (hcommit : processBatchOnce s.db events none = (db, true))
      (hscan : scan.Of db) :
      Step s events
        { db, roots := applyStateRootDelta s.roots scan db (newCursor events) events }

/-- What one batch has to be like: rows without a delta matter once the accumulators are there. -/
def Indexed.Followed (s : Indexed) (events : List IngestEvent) : Prop :=
  (s.roots.bootstrapped = true → Noticed s.db events) ∧ Described s.db events

/-- Runs whose batches are `Allowed`, from tables that earlier events have left. -/
inductive Indexed.Reached (Allowed : Indexed → List IngestEvent → Prop) : Indexed → Prop where
  | start {before : List IngestEvent} (h : WellFormed before) :
      Reached Allowed { db := deliveredOnce before, roots := RootState.empty }
  | batch {s s' : Indexed} {events : List IngestEvent} (h : Reached Allowed s)
      (hallowed : Allowed s events) (hstep : s.Step events s') : Reached Allowed s'

theorem wellFormed_of_project {t : List IngestEvent} {s s' : Session}
    (h : s.project t = (s', true)) : WellFormed t := by
  induction t generalizing s with
  | nil => exact fun e he => absurd he List.not_mem_nil
  | cons e rest ih =>
    rw [Session.project] at h
    cases hmissing : e.body.missing with
    | some message =>
      have herror : s.handle e = .error message := by rw [Session.handle, Db.processEvent, hmissing]
      rw [herror] at h
      exact Bool.noConfusion (Prod.mk.inj h).2
    | none =>
      rw [handle_of_wellFormed hmissing] at h
      have hrest := ih h
      intro x hx
      rcases List.mem_cons.mp hx with rfl | hx
      · exact hmissing
      · exact hrest x hx

/-- A batch that is committed is well formed, and every event of it is written once. -/
theorem of_commit {db db' : Db} {events : List IngestEvent}
    (h : processBatchOnce db events none = (db', true)) :
    WellFormed events ∧ db' = events.foldl Db.write db := by
  cases hproject : Session.project { durable := db, seen := db } events with
  | mk s ok =>
    cases ok with
    | false =>
      rw [processBatchOnce, hproject] at h
      exact Bool.noConfusion (Prod.mk.inj h).2
    | true =>
      have hwf := wellFormed_of_project hproject
      refine ⟨hwf, ?_⟩
      rw [processBatchOnce, project_of_wellFormed hwf] at h
      exact (Prod.mk.inj h).1.symm

/-- The state of the root, once it is there, belongs to the tables. -/
structure Indexed.Sound (s : Indexed) : Prop where
  roots : s.roots.bootstrapped = true → s.roots.Of s.db
  profiles : s.db.profiles.lookup "" = none

/-- A delta resolves to the hash of the row that the batch leaves. -/
theorem resolve_eq {db : Db} {events : List IngestEvent} (hdescribed : Described db events)
    {delta : Delta} (h : delta ∈ extractDeltas events) :
    (resolve (events.foldl Db.write db) delta).2 =
      rowHash (events.foldl Db.write db) delta.1 := by
  obtain ⟨key, hash⟩ := delta
  cases hash with
  | none => rfl
  | some hash =>
    obtain ⟨before, e, after, hevents, hdelta, hafter⟩ := last_of_mem_extractDeltas h
    obtain ⟨ledger, tx, body⟩ := e
    have hnone : ∀ {p : Prop} [Decidable p] {key' : RowKey},
        (if p then none else some (key', (none : Option Digest))) ≠ some (key, some hash) := by
      intro p _ key' hdelta
      by_cases hp : p
      · rw [if_pos hp] at hdelta
        exact Option.some_ne_none _ hdelta.symm
      · rw [if_neg hp] at hdelta
        exact Option.some_ne_none _ (Prod.mk.inj (Option.some.inj hdelta)).2.symm
    have hfetch : ∀ {key' : RowKey}, some (key', (none : Option Digest)) ≠ some (key, some hash) :=
      fun hdelta => Option.some_ne_none _ (Prod.mk.inj (Option.some.inj hdelta)).2.symm
    cases body with
    | postCreated id author content =>
      obtain ⟨hkey, hhash⟩ := Prod.mk.inj (Option.some.inj hdelta)
      rw [← hkey] at hafter ⊢
      have hrow := hdescribed before _ after hevents id author content rfl hafter
      rw [rowHash, fetchCurrentRowHash, hrow]
      exact (Option.some.inj hhash).symm
    | postDeleted postId => exact absurd hdelta hfetch
    | tip tipper postId amount fee => exact absurd hdelta hfetch
    | like user postId => exact absurd hdelta hfetch
    | follow follower followee => exact absurd hdelta hnone
    | unfollow follower followee => exact absurd hdelta hnone
    | profileSet user username creatorToken => exact absurd hdelta hnone
    | profileDeleted user => exact absurd hdelta hnone
    | poolCreated poolId token admins threshold => exact absurd hdelta hnone
    | poolDeposit poolId amount => exact absurd hdelta hnone
    | poolWithdraw poolId amount => exact absurd hdelta hnone
    | _ => exact absurd hdelta.symm (Option.some_ne_none _)

/-- One update brings the state of the root from the tables it belonged to, or from the scan, to
the tables that the batch leaves. -/
theorem of_applyStateRootDelta {db : Db} {events : List IngestEvent} {s : RootState} {scan : Scan}
    (hs : s.bootstrapped = true → s.Of db) (hscan : scan.Of (events.foldl Db.write db))
    (hsame : s.bootstrapped = true → ∀ key, (∀ x ∈ events, x.touched ≠ some key) →
      db.SameRow (events.foldl Db.write db) key)
    (hdescribed : Described db events) (ledgerSequence : Nat) :
    (applyStateRootDelta s scan (events.foldl Db.write db) ledgerSequence events).Of
      (events.foldl Db.write db) := by
  have hkeys : ((extractDeltas events).map (resolve (events.foldl Db.write db))).map Prod.fst =
      (extractDeltas events).map Prod.fst := by
    rw [List.map_map]
    rfl
  have hnodup : (((extractDeltas events).map (resolve (events.foldl Db.write db))).map
      Prod.fst).Nodup := by
    rw [hkeys]
    exact nodup_extractDeltas events
  have hnew : ∀ d ∈ (extractDeltas events).map (resolve (events.foldl Db.write db)),
      d.2 = rowHash (events.foldl Db.write db) d.1 := by
    intro d hd
    obtain ⟨delta, hdelta, rfl⟩ := List.mem_map.mp hd
    exact resolve_eq hdescribed hdelta
  by_cases hboot : s.bootstrapped = true
  · have hupdate := (hs hboot).update hnodup hnew (by
      intro key hkey
      rw [hkeys] at hkey
      exact hsame hboot key fun x hx htouched => hkey (mem_keys_extractDeltas hx htouched))
    rw [applyStateRootDelta, if_pos hboot]
    exact ⟨hupdate.1, hupdate.2⟩
  · have hupdate := (of_bootstrap hscan s).update hnodup hnew fun key _ => Db.SameRow.refl _ key
    rw [applyStateRootDelta, if_neg hboot]
    exact ⟨hupdate.1, hupdate.2⟩

theorem Indexed.Step.sound {s s' : Indexed} {events : List IngestEvent} (hstep : s.Step events s')
    (h : s.Sound) (hfollowed : s.Followed events) : s'.Sound ∧ s'.roots.Of s'.db := by
  cases hstep with
  | @commit db scan hcommit hscan =>
    obtain ⟨hwf, rfl⟩ := of_commit hcommit
    have hof := of_applyStateRootDelta h.roots hscan
      (fun hboot key hkey => sameRow_foldl hwf h.profiles (hfollowed.1 hboot) hkey) hfollowed.2
      (newCursor events)
    exact ⟨⟨fun _ => hof, lookup_profiles_foldl hwf h.profiles⟩, hof⟩

theorem Indexed.Reached.sound {s : Indexed} (h : Reached Indexed.Followed s) : s.Sound := by
  induction h with
  | start hwf =>
    refine ⟨fun hboot => Bool.noConfusion hboot, ?_⟩
    exact lookup_profiles_foldl hwf rfl
  | batch h hallowed hstep ih => exact (hstep.sound ih hallowed).1

/-- After each batch of a run the accumulators are the exclusive or of the hashes of the rows
then in the tables, when every batch has a delta for each row that a removal by moderation or a
change of admins writes to, and creations of posts describe the rows they leave. -/
theorem accumulators_track_tables {s s' : Indexed} {events : List IngestEvent}
    (h : Indexed.Reached Indexed.Followed s) (hfollowed : s.Followed events)
    (hstep : s.Step events s') : s'.roots.accumulators = tableHashes s'.db :=
  (hstep.sound h.sound hfollowed).2.accumulators

/-- A post is created. -/
theorem accumulators_track_one_post :
    let events : List IngestEvent := [⟨7, "tx1", .postCreated 1 "GA" "hi"⟩]
    let s : Indexed := { db := deliveredOnce [], roots := RootState.empty }
    let db : Db := events.foldl Db.write s.db
    ∃ s' : Indexed, s.Step events s' ∧ s'.db = db ∧ s'.roots.accumulators = tableHashes db := by
  intro events s db
  let scan : Scan :=
    { posts := [(1, freshPost "GA" "hi")], follows := [], profiles := [], pools := [] }
  have hreached : Indexed.Reached Indexed.Followed s := .start (show WellFormed [] by decide)
  have hscan : scan.Of db := ⟨by decide, rfl, rfl, rfl⟩
  have hfollowed : s.Followed events := by
    refine ⟨fun hboot => Bool.noConfusion hboot, ?_⟩
    intro before e after hevents id author content he _
    have hmem : e ∈ events := hevents ▸ List.mem_append_right before List.mem_cons_self
    rw [List.mem_singleton.mp hmem] at he
    cases he
    decide
  have hstep : s.Step events _ := .commit (commit_of_wellFormed (by decide) _) hscan
  exact ⟨_, hstep, rfl, accumulators_track_tables hreached hfollowed hstep⟩

theorem accumulators_of_no_delta {s : RootState} {events : List IngestEvent}
    (hboot : s.bootstrapped = true) (hdeltas : extractDeltas events = []) (scan : Scan) (db : Db)
    (ledgerSequence : Nat) :
    (applyStateRootDelta s scan db ledgerSequence events).accumulators = s.accumulators := by
  rw [applyStateRootDelta, if_pos hboot, hdeltas]
  rfl

/-- A pool is created in one batch and gets a second admin in the next. -/
theorem accumulators_miss_admin_change :
    ¬∀ (s s' : Indexed) (events : List IngestEvent), Indexed.Reached (fun _ _ => True) s →
      s.Step events s' → s'.roots.accumulators = tableHashes s'.db := by
  intro h
  let created : List IngestEvent := [⟨7, "tx1", .poolCreated "dao" "XLM" ["alice"] 1⟩]
  let added : List IngestEvent := [⟨8, "tx2", .poolAdminAdded "dao" "bob"⟩]
  let start : Indexed := { db := deliveredOnce [], roots := RootState.empty }
  let db : Db := created.foldl Db.write start.db
  let db' : Db := added.foldl Db.write db
  let scan : Scan :=
    { posts := [], follows := [], profiles := [],
      pools := [("dao", ⟨"XLM", 0, ["alice"], 1, 7, 7⟩)] }
  let scan' : Scan :=
    { posts := [], follows := [], profiles := [],
      pools := [("dao", ⟨"XLM", 0, ["alice", "bob"], 1, 7, 8⟩)] }
  have hscan : scan.Of db := ⟨rfl, rfl, rfl, by decide⟩
  have hscan' : scan'.Of db' := ⟨rfl, rfl, rfl, by decide⟩
  have hreached : Indexed.Reached (fun _ _ => True) start := .start (show WellFormed [] by decide)
  let first : Indexed :=
    { db, roots := applyStateRootDelta start.roots scan db (newCursor created) created }
  have hfirst : start.Step created first := .commit (commit_of_wellFormed (by decide) _) hscan
  let second : Indexed :=
    { db := db', roots := applyStateRootDelta first.roots scan' db' (newCursor added) added }
  have hsecond : first.Step added second := .commit (commit_of_wellFormed (by decide) _) hscan'
  have hacc : first.roots.accumulators = tableHashes db := h _ _ _ hreached hfirst
  have hacc' : second.roots.accumulators = tableHashes db' :=
    h _ _ _ (hreached.batch trivial hfirst) hsecond
  have hkept : second.roots.accumulators = first.roots.accumulators :=
    accumulators_of_no_delta rfl rfl scan' db' _
  have heq : tableHashes db = tableHashes db' := by rw [← hacc, ← hkept, hacc']
  have hpools : Table.xorAll hashPoolRow db.pools = Table.xorAll hashPoolRow db'.pools :=
    congrArg Accumulators.pools heq
  revert hpools
  decide +kernel

end Indexer
end Linkora
