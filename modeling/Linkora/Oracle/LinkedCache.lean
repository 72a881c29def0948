import Linkora.Lib.Links
import Linkora.Lib.Table
import Linkora.Oracle.Cache

/-!
# The attestation cache and its linked list

`services/analytics-oracle/src/attestation-cache.ts` as it is written: a map from keys to nodes,
and the nodes in a doubly linked list between two sentinels.  It answers every call as the cache
of `Oracle/Cache.lean` does, which is one list of entries in order of use.
-/

namespace Linkora
namespace Oracle

/-- The sentinels: `headNode` comes before the most recently used node, `tailNode` after the
least recently used one. -/
def headNode : Nat := 0
def tailNode : Nat := 1

/-- Nodes are numbered in the order in which they were made.  `nodes` is what they hold beside
their pointers; the sentinels hold nothing. -/
structure LinkedCache (κ F V : Type) where
  map : Table κ Nat
  maxSize : Nat
  ttlMs : Nat
  nodes : Nat → Option (κ × CacheNode V)
  links : Links Nat
  made : Nat
  signerId : Option F
  windowKey : Option ReportWindow
  hits : Nat
  misses : Nat
  evictions : Nat

inductive CacheCall (κ F V : Type) where
  | get (now : Int) (key : κ)
  | set (now : Int) (key : κ) (value : V)
  | delete (key : κ)
  | purgeExpired (now : Int)
  | setSignerId (signerId : Option F)
  | beginWindow (windowStart windowEnd : Int)

inductive CacheAnswer (V : Type) where
  | value (found : Option V)
  | existed (found : Bool)
  | count (n : Nat)
  | done
  | rangeError
  deriving DecidableEq

namespace LinkedCache

variable {κ F V : Type}

/-- The constructor, for a size that it does not refuse. -/
def new (maxSize ttlMs : Nat) : LinkedCache κ F V where
  map := ∅
  maxSize
  ttlMs
  nodes := fun _ => none
  links :=
    { next := Function.update (fun _ => none) headNode (some tailNode)
      prev := Function.update (fun _ => none) tailNode (some headNode) }
  made := 2
  signerId := none
  windowKey := none
  hits := 0
  misses := 0
  evictions := 0

def size (c : LinkedCache κ F V) : Nat := c.map.keys.card

def isExpired (c : LinkedCache κ F V) (now : Int) (node : CacheNode V) : Bool :=
  decide (0 < c.ttlMs ∧ (c.ttlMs : Int) < now - node.insertedAt)

/-! ## The list.  A pointer that is `null` throws. -/

def removeNode (c : LinkedCache κ F V) (n : Nat) : Option (LinkedCache κ F V) :=
  (c.links.removeNode n).map fun links => { c with links }

def insertAtFront (c : LinkedCache κ F V) (n : Nat) : Option (LinkedCache κ F V) :=
  (c.links.insertAfter headNode n).map fun links => { c with links }

def moveToFront (c : LinkedCache κ F V) (n : Nat) : Option (LinkedCache κ F V) :=
  (c.removeNode n).bind (·.insertAtFront n)

/-! ## The calls -/

def clear (c : LinkedCache κ F V) : LinkedCache κ F V :=
  if c.size = 0 then c
  else { c with
    map := ∅
    links :=
      { next := Function.update c.links.next headNode (some tailNode)
        prev := Function.update c.links.prev tailNode (some headNode) } }

def setSignerId [DecidableEq F] (c : LinkedCache κ F V) (signerId : Option F) :
    LinkedCache κ F V :=
  if signerId = c.signerId then c else { c.clear with signerId }

def beginWindow (c : LinkedCache κ F V) (windowStart windowEnd : Int) :
    Option (LinkedCache κ F V) :=
  if windowStart ≤ 0 then none
  else if windowEnd ≤ windowStart then none
  else if some ⟨windowStart, windowEnd⟩ = c.windowKey then some c
  else some { c.clear with windowKey := some ⟨windowStart, windowEnd⟩ }

variable [DecidableEq κ]

def evictNode (c : LinkedCache κ F V) (n : Nat) : Option (LinkedCache κ F V) := do
  let c ← c.removeNode n
  let node ← c.nodes n
  some { c with map := c.map.erase node.1, evictions := c.evictions + 1 }

def evictLru (c : LinkedCache κ F V) : Option (LinkedCache κ F V) :=
  match c.links.prev tailNode with
  | none => some c
  | some lru => if lru = headNode then some c else c.evictNode lru

def get (c : LinkedCache κ F V) (now : Int) (key : κ) :
    Option (Option V × LinkedCache κ F V) :=
  match c.map.lookup key with
  | none => some (none, { c with misses := c.misses + 1 })
  | some n => do
    let node ← c.nodes n
    if c.isExpired now node.2 = true then
      let c ← c.evictNode n
      some (none, { c with misses := c.misses + 1 })
    else
      let c ← c.moveToFront n
      some (some node.2.value, { c with hits := c.hits + 1 })

def set (c : LinkedCache κ F V) (now : Int) (key : κ) (value : V) :
    Option (LinkedCache κ F V) :=
  match c.map.lookup key with
  | some n => do
    let node ← c.nodes n
    { c with nodes := Function.update c.nodes n (some (node.1, ⟨value, now⟩)) }.moveToFront n
  | none => do
    let c ← if c.maxSize ≤ c.size then c.evictLru else some c
    let n := c.made
    { c with
      made := c.made + 1
      nodes := Function.update c.nodes n (some (key, ⟨value, now⟩))
      map := c.map.insert key n }.insertAtFront n

def delete (c : LinkedCache κ F V) (key : κ) : Option (Bool × LinkedCache κ F V) :=
  match c.map.lookup key with
  | none => some (false, c)
  | some n => (c.removeNode n).map fun c => (true, { c with map := c.map.erase key })

/-- The loop of `purgeExpired`, at most so many turns of it. -/
def purgeLoop (now : Int) : Nat → Option Nat → Nat → LinkedCache κ F V →
    Option (Nat × LinkedCache κ F V)
  | 0, _, _, _ => none
  | _ + 1, none, count, c => some (count, c)
  | turns + 1, some n, count, c =>
    if n = headNode then some (count, c)
    else do
      let before := c.links.prev n
      let node ← c.nodes n
      if c.isExpired now node.2 = true then
        let c ← c.evictNode n
        purgeLoop now turns before (count + 1) c
      else purgeLoop now turns before count c

/-- The loop passes every node at most once. -/
def purgeExpired (c : LinkedCache κ F V) (now : Int) : Option (Nat × LinkedCache κ F V) :=
  purgeLoop now (c.made + 1) (c.links.prev tailNode) 0 c

def perform [DecidableEq F] (c : LinkedCache κ F V) :
    CacheCall κ F V → Option (CacheAnswer V × LinkedCache κ F V)
  | .get now key => (c.get now key).map fun x => (.value x.1, x.2)
  | .set now key value => (c.set now key value).map fun c => (.done, c)
  | .delete key => (c.delete key).map fun x => (.existed x.1, x.2)
  | .purgeExpired now => (c.purgeExpired now).map fun x => (.count x.1, x.2)
  | .setSignerId signerId => some (.done, c.setSignerId signerId)
  | .beginWindow windowStart windowEnd =>
    match c.beginWindow windowStart windowEnd with
    | none => some (.rangeError, c)
    | some c => some (.done, c)

end LinkedCache

/-! ## The same calls on a list of entries -/

namespace AttestationCache

variable {κ F V : Type} [DecidableEq κ]

def delete (cache : AttestationCache κ F V) (key : κ) : Bool × AttestationCache κ F V :=
  ((cache.nodes.find? key).isSome, { cache with nodes := cache.nodes.erase key })

def perform [DecidableEq F] (cache : AttestationCache κ F V) :
    CacheCall κ F V → CacheAnswer V × AttestationCache κ F V
  | .get now key => (.value (cache.get now key).1, (cache.get now key).2)
  | .set now key value => (.done, cache.set now key value)
  | .delete key => (.existed (cache.delete key).1, (cache.delete key).2)
  | .purgeExpired now =>
    (.count (cache.nodes.entries.length - (cache.purgeExpired now).nodes.entries.length),
      cache.purgeExpired now)
  | .setSignerId signerId => (.done, cache.setSignerId signerId)
  | .beginWindow windowStart windowEnd =>
    match cache.beginWindow windowStart windowEnd with
    | none => (.rangeError, cache)
    | some cache => (.done, cache)

end AttestationCache

/-! ## What the nodes hold -/

namespace LinkedCache

variable {κ F V : Type} [DecidableEq κ] {c c' : LinkedCache κ F V} {xs as bs : List Nat}
  {es fs : List (κ × CacheNode V)} {k : κ} {a : CacheNode V} {n : Nat}

/-- The nodes `xs` are linked, hold the entries `es`, and are those of the map. -/
structure Holds (c : LinkedCache κ F V) (xs : List Nat) (es : List (κ × CacheNode V)) : Prop where
  linked : c.links.Linked headNode xs tailNode
  nodup : (headNode :: (xs ++ [tailNode])).Nodup
  made : ∀ n ∈ headNode :: (xs ++ [tailNode]), n < c.made
  nodes : xs.map c.nodes = es.map some
  keys : (es.map Prod.fst).Nodup
  map : ∀ k n, c.map.lookup k = some n ↔ n ∈ xs ∧ ∃ a, c.nodes n = some (k, a)

theorem holds_new (maxSize ttlMs : Nat) : (new maxSize ttlMs : LinkedCache κ F V).Holds [] [] where
  linked := ⟨rfl, rfl⟩
  nodup := by decide
  made := show ∀ n ∈ [headNode, tailNode], n < 2 by decide
  nodes := rfl
  keys := List.nodup_nil
  map k n := by
    constructor
    · intro h
      rw [new, Finmap.lookup_empty] at h
      cases h
    · intro h
      cases h.1

theorem Holds.length_eq (h : c.Holds xs es) : xs.length = es.length := by
  have hlength := congrArg List.length h.nodes
  rwa [List.length_map, List.length_map] at hlength

theorem Holds.nodup_nodes (h : c.Holds xs es) : xs.Nodup :=
  (List.nodup_append.mp (List.nodup_cons.mp h.nodup).2).1

/-- The entries of the nodes before, of a node, and of the nodes behind it. -/
theorem Holds.split (h : c.Holds xs es) (hn : n ∈ xs) : ∃ as bs es' k a fs,
    xs = as ++ n :: bs ∧ es = es' ++ (k, a) :: fs ∧ as.map c.nodes = es'.map some ∧
      c.nodes n = some (k, a) ∧ bs.map c.nodes = fs.map some := by
  obtain ⟨as, bs, rfl⟩ := List.append_of_mem hn
  have hnodes := h.nodes
  rw [List.map_append, List.map_cons] at hnodes
  obtain ⟨es', rest, rfl, hes, hrest⟩ := List.map_eq_append_iff.mp hnodes.symm
  obtain ⟨⟨k, a⟩, fs, rfl, hk, hfs⟩ := List.map_eq_cons_iff.mp hrest
  exact ⟨as, bs, es', k, a, fs, rfl, rfl, hes.symm, hk.symm, hfs.symm⟩

theorem Holds.split_of_lookup (h : c.Holds xs es) (hk : c.map.lookup k = some n) :
    ∃ as bs es' a fs, xs = as ++ n :: bs ∧ es = es' ++ (k, a) :: fs ∧
      as.map c.nodes = es'.map some ∧ c.nodes n = some (k, a) ∧
        bs.map c.nodes = fs.map some := by
  obtain ⟨hn, a', ha'⟩ := (h.map k n).mp hk
  obtain ⟨as, bs, es', j, a, fs, hxs, hes, has, hnode, hbs⟩ := h.split hn
  have hkey : (j, a) = (k, a') := Option.some.inj (hnode.symm.trans ha')
  obtain ⟨rfl, rfl⟩ := Prod.mk.inj hkey
  exact ⟨as, bs, es', _, fs, hxs, hes, has, hnode, hbs⟩

/-- Every entry is found through the map. -/
theorem Holds.lookup_of_mem (h : c.Holds xs es) (hmem : (k, a) ∈ es) :
    ∃ n ∈ xs, c.nodes n = some (k, a) ∧ c.map.lookup k = some n := by
  have hsome : some (k, a) ∈ xs.map c.nodes := by
    rw [h.nodes]
    exact List.mem_map_of_mem hmem
  obtain ⟨n, hn, hnode⟩ := List.mem_map.mp hsome
  exact ⟨n, hn, hnode, (h.map k n).mpr ⟨hn, a, hnode⟩⟩

/-- The map has as many keys as there are nodes. -/
theorem Holds.size_eq (h : c.Holds xs es) : c.size = xs.length := by
  have hkeys : c.map.keys = (es.map Prod.fst).toFinset := by
    ext k
    rw [Finmap.mem_keys, List.mem_toFinset, ← Finmap.lookup_isSome, Option.isSome_iff_exists]
    constructor
    · rintro ⟨n, hn⟩
      obtain ⟨_, _, es', a, fs, -, rfl, -⟩ := h.split_of_lookup hn
      simp
    · intro hk
      obtain ⟨⟨j, a⟩, hmem, rfl⟩ := List.mem_map.mp hk
      obtain ⟨n, -, -, hn⟩ := h.lookup_of_mem hmem
      exact ⟨n, hn⟩
  rw [size, hkeys, List.toFinset_card_of_nodup h.keys, List.length_map, h.length_eq]

/-! ## Changes of the list -/

/-- Unlinking a node leaves the others linked. -/
theorem Holds.unlink (h : c.Holds (as ++ n :: bs) es) : ∃ links,
    c.links.removeNode n = some links ∧ links.Linked headNode (as ++ bs) tailNode :=
  Links.removeNode_linked h.linked h.nodup

/-- A node is evicted or deleted: the nodes `as` and `bs` stay, with their entries. -/
theorem Holds.remove (h : c.Holds (as ++ n :: bs) (es ++ (k, a) :: fs))
    (has : as.map c.nodes = es.map some) (hnode : c.nodes n = some (k, a))
    (hbs : bs.map c.nodes = fs.map some) : ∃ links, c.links.removeNode n = some links ∧
      ∀ evictions, Holds { c with links, map := c.map.erase k, evictions }
        (as ++ bs) (es ++ fs) := by
  obtain ⟨links, hlinks, hlinked⟩ := h.unlink
  have hsub : (as ++ bs).Sublist (as ++ n :: bs) :=
    (List.Sublist.refl _).append (List.sublist_cons_self _ _)
  have hsub' := (hsub.append (List.Sublist.refl [tailNode])).cons_cons headNode
  refine ⟨links, hlinks, fun evictions => ⟨hlinked, hsub'.nodup h.nodup,
    fun m hm => h.made m (hsub'.subset hm), ?_, ?_, fun j m => ?_⟩⟩
  · rw [List.map_append, List.map_append, has, hbs]
  · refine List.Sublist.nodup (List.Sublist.map _ ?_) h.keys
    exact (List.Sublist.refl _).append (List.sublist_cons_self _ _)
  · have hnodup := h.nodup_nodes
    rw [List.nodup_middle] at hnodup
    have hn : n ∉ as ++ bs := (List.nodup_cons.mp hnodup).1
    have hlookup : c.map.lookup k = some n :=
      (h.map k n).mpr ⟨List.mem_append_right _ List.mem_cons_self, a, hnode⟩
    show (c.map.erase k).lookup j = some m ↔ _
    rw [Table.lookup_erase]
    constructor
    · intro hm
      split at hm
      · cases hm
      · rename_i hjk
        obtain ⟨hmem, b, hb⟩ := (h.map j m).mp hm
        have hmn : m ≠ n := by
          rintro rfl
          exact hjk (Prod.mk.inj (Option.some.inj (hb.symm.trans hnode))).1
        refine ⟨?_, b, hb⟩
        rcases List.mem_append.mp hmem with hleft | hright
        · exact List.mem_append_left _ hleft
        · rcases List.mem_cons.mp hright with heq | hright
          · exact absurd heq hmn
          · exact List.mem_append_right _ hright
    · rintro ⟨hmem, b, hb⟩
      have hm := (h.map j m).mpr ⟨hsub.subset hmem, b, hb⟩
      split
      · rename_i hjk
        rw [hjk, hlookup] at hm
        exact absurd (Option.some.inj hm ▸ hmem) hn
      · exact hm

/-- A node moves to the front, with what it holds now. -/
theorem Holds.promote (h : c.Holds (as ++ n :: bs) (es ++ (k, a) :: fs))
    (has : as.map c.nodes = es.map some) (hnode : c.nodes n = some (k, a))
    (hbs : bs.map c.nodes = fs.map some) (b : CacheNode V) : ∃ links,
      { c with nodes := Function.update c.nodes n (some (k, b)) }.moveToFront n =
        some { c with nodes := Function.update c.nodes n (some (k, b)), links } ∧
      ∀ hits, Holds { c with nodes := Function.update c.nodes n (some (k, b)), links, hits }
        (n :: (as ++ bs)) ((k, b) :: (es ++ fs)) := by
  obtain ⟨links, hlinks, hlinked⟩ := h.unlink
  have hperm : (as ++ n :: bs).Perm (n :: (as ++ bs)) := List.perm_middle
  have hperm' : (headNode :: (as ++ n :: bs ++ [tailNode])).Perm
      (headNode :: (n :: (as ++ bs) ++ [tailNode])) := (hperm.append_right _).cons _
  have hnodup := (hperm'.nodup_iff).mp h.nodup
  have hnodup' : (headNode :: (as ++ bs ++ [tailNode])).Nodup ∧
      n ∉ headNode :: (as ++ bs ++ [tailNode]) := by
    have hswap : (n :: headNode :: (as ++ bs ++ [tailNode])).Nodup :=
      (List.Perm.swap headNode n _).nodup_iff.mpr hnodup
    exact ⟨(List.nodup_cons.mp hswap).2, (List.nodup_cons.mp hswap).1⟩
  obtain ⟨links', hlinks', hlinked'⟩ :=
    Links.insertAfter_linked hlinked hnodup'.1 hnodup'.2
  have hsame : ∀ m ∈ as ++ bs, Function.update c.nodes n (some (k, b)) m = c.nodes m := by
    intro m hm
    refine Function.update_of_ne ?_ _ _
    rintro rfl
    exact hnodup'.2 (List.mem_cons_of_mem _ (List.mem_append_left _ hm))
  refine ⟨links', ?_, fun hits => ⟨hlinked', hnodup, fun m hm => h.made m (hperm'.mem_iff.mpr hm),
    ?_, ?_, fun j m => ?_⟩⟩
  · rw [moveToFront, removeNode, hlinks, Option.map_some, Option.bind_some, insertAtFront, hlinks',
      Option.map_some]
  · show (n :: (as ++ bs)).map (Function.update c.nodes n (some (k, b))) = _
    rw [List.map_cons, Function.update_self, List.map_congr_left hsame, List.map_append, has, hbs,
      List.map_cons, List.map_append]
  · have hkeys := h.keys
    rw [List.map_append, List.map_cons, List.nodup_middle] at hkeys
    rwa [List.map_cons, List.map_append]
  · show c.map.lookup j = some m ↔
      m ∈ n :: (as ++ bs) ∧ ∃ a, Function.update c.nodes n (some (k, b)) m = some (j, a)
    rw [h.map j m, hperm.mem_iff]
    -- The node keeps its key.
    have hkey : (∃ a, c.nodes m = some (j, a)) ↔
        ∃ a, Function.update c.nodes n (some (k, b)) m = some (j, a) := by
      by_cases hmn : m = n
      · subst hmn
        rw [Function.update_self, hnode]
        constructor
        · rintro ⟨_, hj⟩
          exact ⟨b, by rw [(Prod.mk.inj (Option.some.inj hj)).1]⟩
        · rintro ⟨_, hj⟩
          exact ⟨a, by rw [(Prod.mk.inj (Option.some.inj hj)).1]⟩
      · rw [Function.update_of_ne hmn]
    rw [hkey]

/-- A new node is put in front. -/
theorem Holds.insert (h : c.Holds xs es) (hk : c.map.lookup k = none) (a : CacheNode V) :
    ∃ links,
      { c with
        made := c.made + 1
        nodes := Function.update c.nodes c.made (some (k, a))
        map := c.map.insert k c.made }.insertAtFront c.made =
        some { c with
          made := c.made + 1
          nodes := Function.update c.nodes c.made (some (k, a))
          map := c.map.insert k c.made
          links } ∧
      Holds { c with
        made := c.made + 1
        nodes := Function.update c.nodes c.made (some (k, a))
        map := c.map.insert k c.made
        links } (c.made :: xs) ((k, a) :: es) := by
  have hnew : c.made ∉ headNode :: (xs ++ [tailNode]) := fun hmem =>
    Nat.lt_irrefl _ (h.made c.made hmem)
  obtain ⟨links, hlinks, hlinked⟩ := Links.insertAfter_linked h.linked h.nodup hnew
  have hswap : (c.made :: headNode :: (xs ++ [tailNode])).Perm
      (headNode :: (c.made :: xs ++ [tailNode])) := List.Perm.swap _ _ _
  have hne : ∀ m ∈ xs, m ≠ c.made := fun m hm heq =>
    hnew (heq ▸ List.mem_cons_of_mem _ (List.mem_append_left _ hm))
  have hsame : ∀ m ∈ xs, Function.update c.nodes c.made (some (k, a)) m = c.nodes m :=
    fun m hm => Function.update_of_ne (hne m hm) _ _
  refine ⟨links, ?_, hlinked, hswap.nodup_iff.mp (List.nodup_cons.mpr ⟨hnew, h.nodup⟩), ?_, ?_, ?_,
    fun j m => ?_⟩
  · rw [insertAtFront, hlinks, Option.map_some]
  · intro m hm
    rcases List.mem_cons.mp (hswap.mem_iff.mpr hm) with rfl | hold
    · exact Nat.lt_succ_self _
    · exact Nat.lt_succ_of_lt (h.made m hold)
  · show (c.made :: xs).map (Function.update c.nodes c.made (some (k, a))) = _
    rw [List.map_cons, Function.update_self, List.map_congr_left hsame, h.nodes, List.map_cons]
  · rw [List.map_cons, List.nodup_cons]
    refine ⟨fun hmem => ?_, h.keys⟩
    obtain ⟨⟨j, b⟩, hb, rfl⟩ := List.mem_map.mp hmem
    obtain ⟨n, -, -, hn⟩ := h.lookup_of_mem hb
    rw [hk] at hn
    cases hn
  · show (c.map.insert k c.made).lookup j = some m ↔ _
    rw [Table.lookup_insert]
    constructor
    · intro hm
      split at hm
      · rename_i hjk
        obtain rfl := Option.some.inj hm
        exact ⟨List.mem_cons_self, a, by rw [hjk]; exact Function.update_self _ _ _⟩
      · obtain ⟨hmem, b, hb⟩ := (h.map j m).mp hm
        exact ⟨List.mem_cons_of_mem _ hmem, b, (hsame m hmem).trans hb⟩
    · rintro ⟨hmem, b, hb⟩
      have hb' : Function.update c.nodes c.made (some (k, a)) m = some (j, b) := hb
      rcases List.mem_cons.mp hmem with rfl | hold
      · rw [Function.update_self] at hb'
        rw [if_pos (Prod.mk.inj (Option.some.inj hb')).1.symm]
      · have hm := (h.map j m).mpr ⟨hold, b, (hsame m hold).symm.trans hb'⟩
        have hjk : j ≠ k := by
          rintro rfl
          rw [hk] at hm
          cases hm
        rw [if_neg hjk]
        exact hm

/-! ## The two caches side by side -/

/-- The nodes hold the entries of `r`, and everything else agrees. -/
structure Refines (c : LinkedCache κ F V) (r : AttestationCache κ F V) : Prop where
  holds : ∃ xs, c.Holds xs r.nodes.entries
  capacity : r.nodes.capacity = c.maxSize
  ttlMs : r.ttlMs = c.ttlMs
  signerId : r.signerId = c.signerId
  windowKey : r.windowKey = c.windowKey
  hits : r.hits = c.hits
  misses : r.misses = c.misses
  evictions : r.evictions = c.evictions

variable {r : AttestationCache κ F V}

theorem refines_new (maxSize ttlMs : Nat) (h : 0 < maxSize) :
    (new maxSize ttlMs : LinkedCache κ F V).Refines (.new maxSize ttlMs h) :=
  ⟨⟨[], holds_new maxSize ttlMs⟩, rfl, rfl, rfl, rfl, rfl, rfl, rfl⟩

theorem Refines.isExpired (h : c.Refines r) (now : Int) (node : CacheNode V) :
    c.isExpired now node = r.isExpired now node := by
  rw [LinkedCache.isExpired, AttestationCache.isExpired, h.ttlMs]

/-- A key without a node has no entry. -/
theorem Holds.find_eq_none (h : c.Holds xs r.nodes.entries) (hk : c.map.lookup k = none) :
    r.nodes.find? k = none := by
  cases hfound : r.nodes.find? k with
  | none => rfl
  | some a =>
    obtain ⟨n, -, -, hn⟩ := h.lookup_of_mem (Lru.mem_of_find? hfound)
    rw [hk] at hn
    cases hn

theorem find_of_split (hes : r.nodes.entries = es ++ (k, a) :: fs) : r.nodes.find? k = some a :=
  Lru.find?_of_mem (by rw [hes]; exact List.mem_append_right _ List.mem_cons_self)

theorem Refines.get (h : c.Refines r) (now : Int) (key : κ) : ∃ c',
    c.get now key = some ((r.get now key).1, c') ∧ c'.Refines (r.get now key).2 := by
  obtain ⟨xs, hxs⟩ := h.holds
  cases hk : c.map.lookup key with
  | none =>
    have hnone := hxs.find_eq_none hk
    refine ⟨{ c with misses := c.misses + 1 }, ?_, ?_⟩
    · simp [LinkedCache.get, hk, AttestationCache.get, hnone]
    · have hget : (r.get now key).2 = { r with misses := r.misses + 1 } := by
        simp [AttestationCache.get, hnone]
      rw [hget]
      exact ⟨⟨xs, hxs.linked, hxs.nodup, hxs.made, hxs.nodes, hxs.keys, hxs.map⟩, h.capacity,
        h.ttlMs, h.signerId, h.windowKey, h.hits, congrArg (· + 1) h.misses, h.evictions⟩
  | some n =>
    obtain ⟨as, bs, es, a, fs, rfl, hes, has, hnode, hbs⟩ := hxs.split_of_lookup hk
    have hfound := find_of_split hes
    have hexpired := h.isExpired now a
    rw [hes] at hxs
    cases hcase : r.isExpired now a with
    | true =>
      rw [hcase] at hexpired
      obtain ⟨links, hlinks, hheld⟩ := hxs.remove has hnode hbs
      have hget : r.get now key = (none, { r with
          nodes := r.nodes.erase key
          misses := r.misses + 1
          evictions := r.evictions + 1 }) := by
        simp [AttestationCache.get, hfound, hcase]
      refine ⟨{ c with
          links
          map := c.map.erase key
          misses := c.misses + 1
          evictions := c.evictions + 1 }, ?_, ?_⟩
      · simp [LinkedCache.get, hk, hnode, hexpired, evictNode, removeNode, hlinks, hget]
      · rw [hget]
        have hheld' := hheld (c.evictions + 1)
        refine ⟨⟨as ++ bs, ?_⟩, h.capacity, h.ttlMs, h.signerId, h.windowKey, h.hits,
          congrArg (· + 1) h.misses, congrArg (· + 1) h.evictions⟩
        show Holds _ _ (r.nodes.erase key).entries
        rw [Lru.erase_of_split hes]
        exact ⟨hheld'.linked, hheld'.nodup, hheld'.made, hheld'.nodes, hheld'.keys, hheld'.map⟩
    | false =>
      rw [hcase] at hexpired
      obtain ⟨links, hlinks, hheld⟩ := hxs.promote has hnode hbs a
      have hsame : Function.update c.nodes n (some (key, a)) = c.nodes := by
        rw [← hnode, Function.update_eq_self]
      rw [hsame] at hlinks hheld
      have hget : r.get now key = (some a.value, { r with
          nodes := r.nodes.put key a
          hits := r.hits + 1 }) := by
        simp [AttestationCache.get, hfound, hcase]
      refine ⟨{ c with links, hits := c.hits + 1 }, ?_, ?_⟩
      · simp [LinkedCache.get, hk, hnode, hexpired, hlinks, hget]
      · rw [hget]
        refine ⟨⟨n :: (as ++ bs), ?_⟩, h.capacity, h.ttlMs, h.signerId, h.windowKey,
          congrArg (· + 1) h.hits, h.misses, h.evictions⟩
        show Holds _ _ (r.nodes.put key a).entries
        rw [Lru.put_of_split hes]
        exact hheld (c.hits + 1)

/-- The last node is evicted, with the last entry. -/
theorem Holds.evictLru (h : c.Holds xs es) (hne : es ≠ []) : ∃ links map,
    c.evictLru = some { c with links, map, evictions := c.evictions + 1 } ∧
      ∃ xs', Holds { c with links, map, evictions := c.evictions + 1 } xs' es.dropLast ∧
        ∀ j, c.map.lookup j = none → map.lookup j = none := by
  have hxs : xs ≠ [] := by
    rintro rfl
    exact hne (List.length_eq_zero_iff.mp h.length_eq.symm)
  obtain ⟨as, n, rfl⟩ := (List.eq_nil_or_concat' xs).resolve_left hxs
  obtain ⟨as', bs, es', k, a, fs, hsplit, rfl, has, hnode, hbs⟩ :=
    h.split (List.mem_append_right as List.mem_cons_self)
  -- The node is the last one, so nothing stands behind it.
  have hnodup := h.nodup_nodes
  have hlast : as' = as ∧ bs = [] := by
    rw [hsplit, List.nodup_middle] at hnodup
    have hn : n ∉ as' ++ bs := (List.nodup_cons.mp hnodup).1
    rcases List.eq_nil_or_concat' bs with rfl | ⟨bs', m, rfl⟩
    · exact ⟨(List.append_inj' hsplit rfl).1.symm, rfl⟩
    · have hsplit' : as ++ [n] = (as' ++ n :: bs') ++ [m] := by rw [hsplit]; simp
      have hm : n = m := List.singleton_inj.mp (List.append_inj' hsplit' rfl).2
      exact absurd (List.mem_append_right as' (hm ▸ List.mem_append_right _ List.mem_cons_self)) hn
  obtain ⟨rfl, rfl⟩ := hlast
  have hfs : fs = [] := by simpa using hbs
  subst hfs
  obtain ⟨links, hlinks, hheld⟩ := h.remove has hnode hbs
  have hhead : n ≠ headNode := by
    rintro rfl
    exact (List.nodup_cons.mp h.nodup).1 (by simp)
  refine ⟨links, c.map.erase k, ?_, as', ?_, fun j hj => ?_⟩
  · have hprev := h.linked.prev_eq
    rw [List.getLastD_concat] at hprev
    simp [LinkedCache.evictLru, hprev, hhead, evictNode, removeNode, hlinks, hnode]
  · have hheld' := hheld (c.evictions + 1)
    rw [List.append_nil, List.append_nil] at hheld'
    rwa [List.dropLast_concat]
  · rw [Table.lookup_erase, hj]
    exact ite_self _

theorem Refines.set (h : c.Refines r) (now : Int) (key : κ) (value : V) : ∃ c',
    c.set now key value = some c' ∧ c'.Refines (r.set now key value) := by
  obtain ⟨xs, hxs⟩ := h.holds
  have hfull : r.nodes.capacity ≤ r.nodes.entries.length ↔ c.maxSize ≤ c.size := by
    rw [h.capacity, hxs.size_eq, hxs.length_eq]
  cases hk : c.map.lookup key with
  | some n =>
    obtain ⟨as, bs, es, a, fs, rfl, hes, has, hnode, hbs⟩ := hxs.split_of_lookup hk
    have hfound := find_of_split hes
    rw [hes] at hxs
    obtain ⟨links, hlinks, hheld⟩ := hxs.promote has hnode hbs ⟨value, now⟩
    have hevictions : (r.set now key value).evictions = r.evictions := by
      simp [AttestationCache.set, hfound]
    refine ⟨{ c with nodes := Function.update c.nodes n (some (key, ⟨value, now⟩)), links }, ?_, ?_⟩
    · simp [LinkedCache.set, hk, hnode, hlinks]
    · refine ⟨⟨n :: (as ++ bs), ?_⟩, h.capacity, h.ttlMs, h.signerId, h.windowKey, h.hits,
        h.misses, hevictions.trans h.evictions⟩
      show Holds _ _ (r.nodes.put key ⟨value, now⟩).entries
      rw [Lru.put_of_split hes]
      exact hheld c.hits
  | none =>
    have hfound := hxs.find_eq_none hk
    by_cases hroom : c.maxSize ≤ c.size
    · have hfull' := hfull.mpr hroom
      have hne : r.nodes.entries ≠ [] := by
        intro hempty
        have hpos := r.nodes.capacity_pos
        rw [hempty] at hfull'
        exact absurd hfull' (Nat.not_le.mpr hpos)
      obtain ⟨links, map, hevict, xs', hheld, hkept⟩ := hxs.evictLru hne
      obtain ⟨links', hlinks', hheld'⟩ := hheld.insert (hkept key hk) ⟨value, now⟩
      have hevictions : (r.set now key value).evictions = r.evictions + 1 := by
        simp [AttestationCache.set, hfound, hfull']
      refine ⟨{ c with
          links := links'
          map := map.insert key c.made
          made := c.made + 1
          nodes := Function.update c.nodes c.made (some (key, ⟨value, now⟩))
          evictions := c.evictions + 1 }, ?_, ⟨c.made :: xs', ?_⟩, h.capacity, h.ttlMs, h.signerId,
        h.windowKey, h.hits, h.misses, hevictions.trans (congrArg (· + 1) h.evictions)⟩
      · simp only [LinkedCache.set, hk, if_pos hroom, hevict]
        exact hlinks'
      · show Holds _ _ (r.nodes.put key ⟨value, now⟩).entries
        rw [Lru.put_of_full hfound hfull']
        exact hheld'
    · have hfull' : ¬r.nodes.capacity ≤ r.nodes.entries.length := fun hle => hroom (hfull.mp hle)
      obtain ⟨links', hlinks', hheld'⟩ := hxs.insert hk ⟨value, now⟩
      have hevictions : (r.set now key value).evictions = r.evictions := by
        simp only [AttestationCache.set]
        rw [if_neg fun hboth => hfull' hboth.2]
      refine ⟨{ c with
          links := links'
          map := c.map.insert key c.made
          made := c.made + 1
          nodes := Function.update c.nodes c.made (some (key, ⟨value, now⟩)) }, ?_,
        ⟨c.made :: xs, ?_⟩, h.capacity, h.ttlMs, h.signerId, h.windowKey, h.hits, h.misses,
        hevictions.trans h.evictions⟩
      · simp only [LinkedCache.set, hk, if_neg hroom]
        exact hlinks'
      · show Holds _ _ (r.nodes.put key ⟨value, now⟩).entries
        rw [Lru.put_of_room hfound (Nat.lt_of_not_le hfull')]
        exact hheld'

theorem Refines.delete (h : c.Refines r) (key : κ) : ∃ c',
    c.delete key = some ((r.delete key).1, c') ∧ c'.Refines (r.delete key).2 := by
  obtain ⟨xs, hxs⟩ := h.holds
  cases hk : c.map.lookup key with
  | none =>
    have hfound := hxs.find_eq_none hk
    refine ⟨c, ?_, ⟨xs, ?_⟩, h.capacity, h.ttlMs, h.signerId, h.windowKey, h.hits, h.misses,
      h.evictions⟩
    · simp [LinkedCache.delete, hk, AttestationCache.delete, hfound]
    · show Holds _ _ (r.nodes.erase key).entries
      rw [Lru.erase_of_absent hfound]
      exact hxs
  | some n =>
    obtain ⟨as, bs, es, a, fs, rfl, hes, has, hnode, hbs⟩ := hxs.split_of_lookup hk
    have hfound := find_of_split hes
    rw [hes] at hxs
    obtain ⟨links, hlinks, hheld⟩ := hxs.remove has hnode hbs
    refine ⟨{ c with links, map := c.map.erase key }, ?_, ⟨as ++ bs, ?_⟩, h.capacity, h.ttlMs,
      h.signerId, h.windowKey, h.hits, h.misses, h.evictions⟩
    · simp [LinkedCache.delete, hk, AttestationCache.delete, hfound, removeNode, hlinks]
    · show Holds _ _ (r.nodes.erase key).entries
      rw [Lru.erase_of_split hes]
      exact hheld c.evictions

theorem holds_clear {map : Table κ Nat} (hmap : map = ∅) {links : Links Nat}
    (hlinks : links.Linked headNode [] tailNode) (hmade : 2 ≤ c.made) :
    Holds { c with map, links } [] [] where
  linked := hlinks
  nodup := by decide
  made := by
    intro n hn
    have hlt : n < 2 := by
      have hsentinels : ∀ m ∈ [headNode, tailNode], m < 2 := by decide
      exact hsentinels n hn
    exact Nat.lt_of_lt_of_le hlt hmade
  nodes := rfl
  keys := List.nodup_nil
  map k n := by
    constructor
    · intro h
      rw [hmap] at h
      cases h
    · intro h
      cases h.1

theorem Refines.clear (h : c.Refines r) : c.clear.Refines r.clear := by
  obtain ⟨xs, hxs⟩ := h.holds
  have htail : tailNode < c.made := hxs.made tailNode (by simp)
  rw [LinkedCache.clear]
  split
  · rename_i hempty
    have hnil : r.nodes.entries = [] := by
      rw [hxs.size_eq, hxs.length_eq] at hempty
      exact List.length_eq_zero_iff.mp hempty
    rw [hnil] at hxs
    exact ⟨⟨xs, hxs⟩, h.capacity, h.ttlMs, h.signerId, h.windowKey, h.hits, h.misses, h.evictions⟩
  · have hlinked : Links.Linked
        { next := Function.update c.links.next headNode (some tailNode)
          prev := Function.update c.links.prev tailNode (some headNode) } headNode [] tailNode :=
      ⟨by simp, by simp⟩
    exact ⟨⟨[], holds_clear rfl hlinked htail⟩, h.capacity, h.ttlMs, h.signerId, h.windowKey,
      h.hits, h.misses, h.evictions⟩

theorem Refines.setSignerId [DecidableEq F] (h : c.Refines r) (signerId : Option F) :
    (c.setSignerId signerId).Refines (r.setSignerId signerId) := by
  rw [LinkedCache.setSignerId, AttestationCache.setSignerId, h.signerId]
  split
  · exact h
  · obtain ⟨⟨xs, hxs⟩, hcapacity, httl, -, hwindow, hhits, hmisses, hevictions⟩ := h.clear
    exact ⟨⟨xs, hxs.linked, hxs.nodup, hxs.made, hxs.nodes, hxs.keys, hxs.map⟩, hcapacity, httl,
      rfl, hwindow, hhits, hmisses, hevictions⟩

theorem Refines.beginWindow (h : c.Refines r) (windowStart windowEnd : Int) :
    (c.beginWindow windowStart windowEnd = none ∧ r.beginWindow windowStart windowEnd = none) ∨
    ∃ c' r', c.beginWindow windowStart windowEnd = some c' ∧
      r.beginWindow windowStart windowEnd = some r' ∧ c'.Refines r' := by
  rw [LinkedCache.beginWindow, AttestationCache.beginWindow, h.windowKey]
  split
  · exact Or.inl ⟨rfl, rfl⟩
  · split
    · exact Or.inl ⟨rfl, rfl⟩
    · split
      · exact Or.inr ⟨c, r, rfl, rfl, h⟩
      · refine Or.inr ⟨_, _, rfl, rfl, ?_⟩
        obtain ⟨⟨xs, hxs⟩, hcapacity, httl, hsigner, -, hhits, hmisses, hevictions⟩ := h.clear
        exact ⟨⟨xs, hxs.linked, hxs.nodup, hxs.made, hxs.nodes, hxs.keys, hxs.map⟩, hcapacity,
          httl, hsigner, rfl, hhits, hmisses, hevictions⟩

/-! ### The sweep -/

/-- The entries that are not expired. -/
def live (c : LinkedCache κ F V) (now : Int) (es : List (κ × CacheNode V)) :
    List (κ × CacheNode V) := es.filter fun e => !c.isExpired now e.2

omit [DecidableEq κ] in
theorem live_concat (e : κ × CacheNode V) (now : Int) (es : List (κ × CacheNode V)) :
    c.live now (es ++ [e]) = c.live now es ++ if c.isExpired now e.2 = true then [] else [e] := by
  rw [live, List.filter_append]
  cases hcase : c.isExpired now e.2 <;> simp [live, hcase]

/-- The loop, at the last of the nodes `as`: those behind it have been passed. -/
theorem Holds.purgeLoop (now : Int) (count : Nat) {turns : Nat} (h : c.Holds (as ++ bs) (es ++ fs))
    (has : as.map c.nodes = es.map some) (hbs : bs.map c.nodes = fs.map some)
    (hturns : as.length < turns) :
    ∃ links map xs dropped, dropped + (c.live now es).length = es.length ∧
      LinkedCache.purgeLoop now turns (some (as.getLastD headNode)) count c =
        some (count + dropped, { c with links, map, evictions := c.evictions + dropped }) ∧
      Holds { c with links, map, evictions := c.evictions + dropped } (xs ++ bs)
        (c.live now es ++ fs) := by
  obtain ⟨turns, rfl⟩ : ∃ m, turns = m + 1 := ⟨turns - 1, by omega⟩
  induction as using List.reverseRecOn generalizing c bs es fs turns count with
  | nil =>
    obtain rfl : es = [] := by simpa using has
    exact ⟨c.links, c.map, [], 0, rfl, by simp [LinkedCache.purgeLoop], h⟩
  | append_singleton as n ih =>
    obtain ⟨turns, rfl⟩ : ∃ m, turns = m + 1 := ⟨turns - 1, by simp at hturns; omega⟩
    have hfewer : as.length < turns + 1 := by simpa using hturns
    rw [List.map_append, List.map_singleton] at has
    obtain ⟨es, last, rfl, hes, hlast⟩ := List.map_eq_append_iff.mp has.symm
    obtain ⟨⟨k, a⟩, rfl, hnode⟩ := List.map_eq_singleton_iff.mp hlast
    rw [List.append_assoc, List.append_assoc, List.singleton_append, List.singleton_append] at h
    have hhead : n ≠ headNode := by
      rintro rfl
      exact (List.nodup_cons.mp h.nodup).1 (by simp)
    have hprev : c.links.prev n = some (as.getLastD headNode) :=
      (Links.linked_append.mp h.linked).1.prev_eq
    rw [List.getLastD_concat, live_concat]
    cases hcase : c.isExpired now a with
    | true =>
      obtain ⟨links, hlinks, hheld⟩ := h.remove hes.symm hnode.symm hbs
      obtain ⟨links', map, xs, dropped, hdropped, hloop, hheld'⟩ :=
        ih (count + 1) (hheld (c.evictions + 1)) hes.symm hbs turns hfewer
      have hadd : ∀ m, m + 1 + dropped = m + (dropped + 1) := fun m => by omega
      simp only [hadd] at hloop hheld'
      refine ⟨links', map, xs, dropped + 1, ?_, ?_, ?_⟩
      · rw [if_pos rfl, List.append_nil, List.length_append, List.length_singleton, ← hdropped]
        show dropped + 1 + (c.live now es).length = dropped + (c.live now es).length + 1
        omega
      · rw [LinkedCache.purgeLoop, if_neg hhead, hprev, ← hnode]
        simp only [Option.bind_eq_bind, Option.bind_some, hcase, if_true, evictNode, removeNode,
          hlinks, Option.map_some, ← hnode]
        exact hloop
      · rw [if_pos rfl, List.append_nil]
        exact hheld'
    | false =>
      have hbs' : (n :: bs).map c.nodes = ((k, a) :: fs).map some := by
        rw [List.map_cons, List.map_cons, hnode, hbs]
      obtain ⟨links', map, xs, dropped, hdropped, hloop, hheld'⟩ :=
        ih count h hes.symm hbs' turns hfewer
      refine ⟨links', map, xs ++ [n], dropped, ?_, ?_, ?_⟩
      · rw [if_neg Bool.false_ne_true, List.length_append, List.length_append, ← hdropped]
        omega
      · rw [LinkedCache.purgeLoop, if_neg hhead, hprev, ← hnode]
        simp only [Option.bind_eq_bind, Option.bind_some, hcase, if_neg Bool.false_ne_true]
        exact hloop
      · rw [if_neg Bool.false_ne_true, List.append_assoc, List.append_assoc]
        exact hheld'

theorem Refines.purgeExpired (h : c.Refines r) (now : Int) : ∃ c',
    c.purgeExpired now = some (r.nodes.entries.length -
      (r.purgeExpired now).nodes.entries.length, c') ∧ c'.Refines (r.purgeExpired now) := by
  obtain ⟨xs, hxs⟩ := h.holds
  -- There are not more nodes in the list than have been made.
  have hlength : xs.length < c.made + 1 := by
    have hsub : xs ⊆ List.range c.made := fun n hn =>
      List.mem_range.mpr (hxs.made n (List.mem_cons_of_mem _ (List.mem_append_left _ hn)))
    have hle := (hxs.nodup_nodes.subperm hsub).length_le
    rw [List.length_range] at hle
    omega
  have hlive : (r.purgeExpired now).nodes.entries = c.live now r.nodes.entries := by
    refine List.filter_congr fun e _ => ?_
    rw [h.isExpired]
  have hxs' : c.Holds (xs ++ []) (r.nodes.entries ++ []) := by
    rwa [List.append_nil, List.append_nil]
  obtain ⟨links, map, xs', dropped, hdropped, hloop, hheld⟩ :=
    Holds.purgeLoop now 0 hxs' hxs.nodes rfl hlength
  have hcount : r.nodes.entries.length - (r.purgeExpired now).nodes.entries.length = dropped := by
    rw [hlive, ← hdropped]
    omega
  refine ⟨{ c with links, map, evictions := c.evictions + dropped }, ?_, ⟨xs', ?_⟩, h.capacity,
    h.ttlMs, h.signerId, h.windowKey, h.hits, h.misses, ?_⟩
  · rw [LinkedCache.purgeExpired, hxs.linked.prev_eq, hloop, hcount, Nat.zero_add]
  · rw [List.append_nil, List.append_nil] at hheld
    rw [hlive]
    exact hheld
  · show r.evictions + (r.nodes.entries.length - (r.purgeExpired now).nodes.entries.length) = _
    rw [hcount, h.evictions]

/-! ## Runs -/

/-- Each call returns what it returns on the list of entries. -/
theorem Refines.perform [DecidableEq F] (h : c.Refines r) (call : CacheCall κ F V) : ∃ c',
    c.perform call = some ((r.perform call).1, c') ∧ c'.Refines (r.perform call).2 := by
  cases call with
  | get now key =>
    obtain ⟨c', hget, h'⟩ := h.get now key
    exact ⟨c', by rw [LinkedCache.perform, hget]; rfl, h'⟩
  | set now key value =>
    obtain ⟨c', hset, h'⟩ := h.set now key value
    exact ⟨c', by rw [LinkedCache.perform, hset]; rfl, h'⟩
  | delete key =>
    obtain ⟨c', hdelete, h'⟩ := h.delete key
    exact ⟨c', by rw [LinkedCache.perform, hdelete]; rfl, h'⟩
  | purgeExpired now =>
    obtain ⟨c', hpurge, h'⟩ := h.purgeExpired now
    exact ⟨c', by rw [LinkedCache.perform, hpurge]; rfl, h'⟩
  | setSignerId signerId => exact ⟨c.setSignerId signerId, rfl, h.setSignerId signerId⟩
  | beginWindow windowStart windowEnd =>
    rw [LinkedCache.perform, AttestationCache.perform]
    rcases h.beginWindow windowStart windowEnd with ⟨hc, hr⟩ | ⟨c', r', hc, hr, h'⟩
    · rw [hc, hr]
      exact ⟨c, rfl, h⟩
    · rw [hc, hr]
      exact ⟨c', rfl, h'⟩

end LinkedCache

/-- The answers to the calls, one after the other, and the cache after them. -/
def answersOf {σ α β : Type} (perform : σ → α → Option (β × σ)) :
    List α → σ → Option (List β × σ)
  | [], s => some ([], s)
  | a :: rest, s =>
    (perform s a).bind fun x => (answersOf perform rest x.2).map fun y => (x.1 :: y.1, y.2)

/-- The same where no call throws. -/
def answersTo {σ α β : Type} (perform : σ → α → β × σ) : List α → σ → List β × σ
  | [], s => ([], s)
  | a :: rest, s =>
    ((perform s a).1 :: (answersTo perform rest (perform s a).2).1,
      (answersTo perform rest (perform s a).2).2)

theorem answersOf_of_simulates {σ τ α β : Type} {perform : σ → α → Option (β × σ)}
    {perform' : τ → α → β × τ} {R : σ → τ → Prop}
    (hstep : ∀ s t a, R s t → ∃ s', perform s a = some ((perform' t a).1, s') ∧
      R s' (perform' t a).2) (calls : List α) {s : σ} {t : τ} (h : R s t) :
    ∃ s', answersOf perform calls s = some ((answersTo perform' calls t).1, s') ∧
      R s' (answersTo perform' calls t).2 := by
  induction calls generalizing s t with
  | nil => exact ⟨s, rfl, h⟩
  | cons call rest ih =>
    obtain ⟨s', hcall, hs'⟩ := hstep s t call h
    obtain ⟨s'', hrest, hs''⟩ := ih hs'
    refine ⟨s'', ?_, hs''⟩
    rw [answersOf, hcall, Option.bind_some, hrest]
    rfl

theorem AttestationCache.capacity_perform {κ F V : Type} [DecidableEq κ] [DecidableEq F]
    (r : AttestationCache κ F V) (call : CacheCall κ F V) :
    (r.perform call).2.nodes.capacity = r.nodes.capacity := by
  cases call with
  | get now key =>
    show (r.get now key).2.nodes.capacity = r.nodes.capacity
    rcases r.get_cases now key with hget | hget | ⟨node, -, hget⟩
    · rw [hget]
    · rw [hget]
      rfl
    · rw [hget]
      rfl
  | set => rfl
  | delete => rfl
  | purgeExpired => rfl
  | setSignerId signerId =>
    rw [AttestationCache.perform, AttestationCache.setSignerId]
    split
    · rfl
    · rfl
  | beginWindow windowStart windowEnd =>
    rw [AttestationCache.perform, AttestationCache.beginWindow]
    split
    · rfl
    · rename_i heq
      split at heq
      · cases heq
      · split at heq
        · cases heq
        · split at heq <;>
          · obtain rfl := Option.some.inj heq
            rfl

namespace LinkedCache

variable {κ F V : Type} [DecidableEq κ]

/-- The keys of some nodes. -/
def keysOf (c : LinkedCache κ F V) (xs : List Nat) : List κ :=
  xs.filterMap fun n => (c.nodes n).map Prod.fst

/-- The list from `headNode` to `tailNode` and back, and the keys of the map. -/
structure Threaded (c : LinkedCache κ F V) (xs : List Nat) : Prop where
  forwards : Links.follow c.links.next tailNode (c.size + 1) headNode = xs
  backwards : Links.follow c.links.prev headNode (c.size + 1) tailNode = xs.reverse
  linked : c.links.Linked headNode xs tailNode
  nodup : (c.keysOf xs).Nodup
  keys : ∀ k, k ∈ c.keysOf xs ↔ (c.map.lookup k).isSome = true
  nodes : ∀ k n, c.map.lookup k = some n ↔ n ∈ xs ∧ ∃ a, c.nodes n = some (k, a)
  size : c.size = xs.length

theorem Holds.threaded {c : LinkedCache κ F V} {xs : List Nat} {es : List (κ × CacheNode V)}
    (h : c.Holds xs es) : c.Threaded xs := by
  obtain ⟨hhead, htail⟩ := List.nodup_cons.mp h.nodup
  have hkeys : c.keysOf xs = es.map Prod.fst := by
    have hmap : c.keysOf xs = (xs.map c.nodes).filterMap fun e => e.map Prod.fst := by
      rw [List.filterMap_map]
      rfl
    rw [hmap, h.nodes, List.filterMap_map]
    exact congrFun List.filterMap_eq_map es
  have hsize := h.size_eq
  refine ⟨?_, ?_, h.linked, hkeys ▸ h.keys, fun k => ?_, h.map, hsize⟩
  · refine Links.follow_next h.linked (fun hmem => ?_) (hsize ▸ Nat.lt_succ_self _)
    exact (List.nodup_append.mp htail).2.2 _ hmem _ List.mem_cons_self rfl
  · refine Links.follow_prev h.linked (fun hmem => ?_) (hsize ▸ Nat.lt_succ_self _)
    exact hhead (List.mem_append_left _ hmem)
  · rw [hkeys, Option.isSome_iff_exists]
    constructor
    · intro hk
      obtain ⟨⟨j, a⟩, hmem, rfl⟩ := List.mem_map.mp hk
      obtain ⟨n, -, -, hn⟩ := h.lookup_of_mem hmem
      exact ⟨n, hn⟩
    · rintro ⟨n, hn⟩
      obtain ⟨_, _, es', a, fs, -, rfl, -⟩ := h.split_of_lookup hn
      simp

variable [DecidableEq F]

/-- No call throws, every call returns what it returns on a list of entries in order of use, and
afterwards the list and the map agree. -/
theorem attestationCache_is_lru (maxSize ttlMs : Nat) (hsize : 0 < maxSize)
    (calls : List (CacheCall κ F V)) : ∃ c : LinkedCache κ F V,
    answersOf perform calls (new maxSize ttlMs) =
      some ((answersTo AttestationCache.perform calls (.new maxSize ttlMs hsize)).1, c) ∧
    (∃ xs, c.Threaded xs) ∧ c.size ≤ maxSize := by
  obtain ⟨c, hanswers, hrefines, hcapacity⟩ := answersOf_of_simulates
    (R := fun (c : LinkedCache κ F V) (r : AttestationCache κ F V) =>
      c.Refines r ∧ r.nodes.capacity = maxSize)
    (fun c r call h => by
      obtain ⟨c', hcall, h'⟩ := h.1.perform call
      exact ⟨c', hcall, h', (r.capacity_perform call).trans h.2⟩)
    calls ⟨refines_new maxSize ttlMs hsize, rfl⟩
  obtain ⟨xs, hxs⟩ := hrefines.holds
  refine ⟨c, hanswers, ⟨xs, hxs.threaded⟩, ?_⟩
  rw [hxs.size_eq, hxs.length_eq]
  exact Nat.le_trans (Lru.bounded _) hcapacity.le

/-- A cache of one entry drops the first one when the second comes in. -/
theorem attestationCache_is_lru_one : ∃ c : LinkedCache Nat Nat Nat,
    answersOf perform [.set 0 1 10, .set 0 2 20, .get 0 1, .get 0 2] (new 1 0) =
      some ([.done, .done, .value none, .value (some 20)], c) ∧
    (∃ xs, c.Threaded xs) ∧ c.size ≤ 1 :=
  attestationCache_is_lru 1 0 (by decide) [.set 0 1 10, .set 0 2 20, .get 0 1, .get 0 2]

end LinkedCache
end Oracle
end Linkora
