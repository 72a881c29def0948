import Linkora.Lib.Lru

/-!
# The attestation cache

`services/analytics-oracle/src/attestation-cache.ts`: a bounded cache of the attestations by
creator, whose entries are dropped when they are too old, when the cache is full, when the
signer's key changes and when a new report window begins.  The doubly linked list and the map
over its nodes are one list, the most recently used node first.
-/

namespace Linkora
namespace Oracle

universe u v w

/-- `${windowStart}:${windowEnd}`, as the pair of the two. -/
structure ReportWindow where
  windowStart : Int
  windowEnd : Int
  deriving DecidableEq

/-- What a node holds beside its key. -/
structure CacheNode (V : Type v) where
  value : V
  insertedAt : Int

structure AttestationCache (κ : Type u) (F : Type w) (V : Type v) where
  ttlMs : Nat
  nodes : Lru κ (CacheNode V)
  /-- Fingerprint of the signer key the cached signatures were produced with. -/
  signerId : Option F
  windowKey : Option ReportWindow
  hits : Nat
  misses : Nat
  evictions : Nat

namespace AttestationCache

variable {κ : Type u} {F : Type w} {V : Type v}

/-- The constructor, which throws for a size below one. -/
def new (maxSize ttlMs : Nat) (h : 0 < maxSize) : AttestationCache κ F V where
  ttlMs
  nodes := Lru.empty maxSize h
  signerId := none
  windowKey := none
  hits := 0
  misses := 0
  evictions := 0

def isExpired (cache : AttestationCache κ F V) (now : Int) (node : CacheNode V) : Bool :=
  decide (0 < cache.ttlMs ∧ (cache.ttlMs : Int) < now - node.insertedAt)

def clear (cache : AttestationCache κ F V) : AttestationCache κ F V :=
  { cache with nodes := cache.nodes.clear }

def setSignerId [DecidableEq F] (cache : AttestationCache κ F V) (signerId : Option F) :
    AttestationCache κ F V :=
  if signerId = cache.signerId then cache else { cache.clear with signerId }

/-- Throws a `RangeError` for bounds that are not those of a window. -/
def beginWindow (cache : AttestationCache κ F V) (windowStart windowEnd : Int) :
    Option (AttestationCache κ F V) :=
  if windowStart ≤ 0 then none
  else if windowEnd ≤ windowStart then none
  else if some ⟨windowStart, windowEnd⟩ = cache.windowKey then some cache
  else some { cache.clear with windowKey := some ⟨windowStart, windowEnd⟩ }

def purgeExpired (cache : AttestationCache κ F V) (now : Int) : AttestationCache κ F V :=
  let live := cache.nodes.filter fun _ node => !cache.isExpired now node
  { cache with
    nodes := live
    evictions := cache.evictions + (cache.nodes.entries.length - live.entries.length) }

variable [DecidableEq κ]

def get (cache : AttestationCache κ F V) (now : Int) (key : κ) :
    Option V × AttestationCache κ F V :=
  match cache.nodes.find? key with
  | none => (none, { cache with misses := cache.misses + 1 })
  | some node =>
    if cache.isExpired now node = true then
      (none, { cache with
        nodes := cache.nodes.erase key
        misses := cache.misses + 1
        evictions := cache.evictions + 1 })
    else
      (some node.value, { cache with
        nodes := cache.nodes.put key node
        hits := cache.hits + 1 })

def set (cache : AttestationCache κ F V) (now : Int) (key : κ) (value : V) :
    AttestationCache κ F V :=
  -- The key's own node is updated in place; only an insert can drop the last node.
  let full := cache.nodes.capacity ≤ cache.nodes.entries.length
  { cache with
    nodes := cache.nodes.put key ⟨value, now⟩
    evictions :=
      if (cache.nodes.find? key).isNone = true ∧ full then cache.evictions + 1
      else cache.evictions }

/-! ## What the operations keep -/

/-- Every attestation in the cache meets `P`. -/
def All (cache : AttestationCache κ F V) (P : κ → V → Prop) : Prop :=
  ∀ key node, (key, node) ∈ cache.nodes.entries → P key node.value

variable {cache cache' : AttestationCache κ F V} {P Q : κ → V → Prop} {now : Int} {key : κ}
  {value : V}

omit [DecidableEq κ] in
theorem all_clear (cache : AttestationCache κ F V) (P : κ → V → Prop) : cache.clear.All P :=
  fun _ _ hmem => absurd hmem (Lru.not_mem_clear _)

omit [DecidableEq κ] in
theorem all_new (maxSize ttlMs : Nat) (h : 0 < maxSize) (P : κ → V → Prop) :
    (new maxSize ttlMs h : AttestationCache κ F V).All P :=
  fun _ _ hmem => absurd hmem List.not_mem_nil

omit [DecidableEq κ] in
theorem All.setSignerId [DecidableEq F] (h : cache.All P) (signerId : Option F) :
    (cache.setSignerId signerId).All P := by
  unfold AttestationCache.setSignerId
  split
  · exact h
  · exact all_clear cache P

omit [DecidableEq κ] in
theorem All.purgeExpired (h : cache.All P) (now : Int) : (cache.purgeExpired now).All P :=
  fun key node hmem => h key node (Lru.mem_filter.mp hmem).1

/-- A lookup misses, drops a node that is too old, or returns a node's value and moves the node
to the front. -/
theorem get_cases (cache : AttestationCache κ F V) (now : Int) (key : κ) :
    cache.get now key = (none, { cache with misses := cache.misses + 1 }) ∨
    cache.get now key = (none, { cache with
      nodes := cache.nodes.erase key
      misses := cache.misses + 1
      evictions := cache.evictions + 1 }) ∨
    ∃ node, cache.nodes.find? key = some node ∧
      cache.get now key = (some node.value, { cache with
        nodes := cache.nodes.put key node
        hits := cache.hits + 1 }) := by
  unfold AttestationCache.get
  cases hfound : cache.nodes.find? key with
  | none => exact Or.inl rfl
  | some node =>
    cases hexpired : cache.isExpired now node with
    | true => exact Or.inr (Or.inl (by simp [hexpired]))
    | false => exact Or.inr (Or.inr ⟨node, rfl, by simp [hexpired]⟩)

theorem All.get (h : cache.All P) (now : Int) (key : κ) : (cache.get now key).2.All P := by
  rcases cache.get_cases now key with hmiss | hold | ⟨node, hfound, hhit⟩
  · rw [hmiss]
    exact h
  · rw [hold]
    exact fun j x hmem => h j x (Lru.mem_erase.mp hmem).1
  · rw [hhit]
    intro j x hmem
    rcases Lru.mem_put hmem with ⟨rfl, rfl⟩ | hother
    · exact h _ _ (Lru.mem_of_find? hfound)
    · exact h j x hother

theorem All.set (h : cache.All P) (hnew : P key value) : (cache.set now key value).All P := by
  intro j x hmem
  rcases Lru.mem_put hmem with ⟨rfl, rfl⟩ | hold
  · exact hnew
  · exact h j x hold

/-- What is returned is in the cache. -/
theorem of_get (h : cache.All P) (hget : (cache.get now key).1 = some value) : P key value := by
  rcases cache.get_cases now key with hmiss | hold | ⟨node, hfound, hhit⟩
  · rw [hmiss] at hget
    cases hget
  · rw [hold] at hget
    cases hget
  · rw [hhit] at hget
    obtain rfl := Option.some.inj hget
    exact h _ _ (Lru.mem_of_find? hfound)

/-- An entry that was just stored is returned. -/
theorem get_set (cache : AttestationCache κ F V) (now : Int) (key : κ) (value : V) :
    ((cache.set now key value).get now key).1 = some value := by
  have hfound : (cache.set now key value).nodes.find? key = some ⟨value, now⟩ :=
    Lru.find?_put_self _ _ _
  have hlive : (cache.set now key value).isExpired now ⟨value, now⟩ = false := by
    apply decide_eq_false
    rw [Int.sub_self]
    omega
  simp [AttestationCache.get, hfound, hlive]

/-- A lookup leaves the signer and the window. -/
theorem get_scope (cache : AttestationCache κ F V) (now : Int) (key : κ) :
    (cache.get now key).2.signerId = cache.signerId ∧
      (cache.get now key).2.windowKey = cache.windowKey := by
  rcases cache.get_cases now key with hmiss | hold | ⟨node, -, hhit⟩
  · rw [hmiss]
    exact ⟨rfl, rfl⟩
  · rw [hold]
    exact ⟨rfl, rfl⟩
  · rw [hhit]
    exact ⟨rfl, rfl⟩

omit [DecidableEq κ] in
/-- A new key or a new window leaves nothing behind. -/
theorem setSignerId_cases [DecidableEq F] (cache : AttestationCache κ F V) (signerId : Option F) :
    (signerId = cache.signerId ∧ cache.setSignerId signerId = cache) ∨
    cache.setSignerId signerId = { cache.clear with signerId } := by
  unfold setSignerId
  split
  · rename_i hsame
    exact Or.inl ⟨hsame, rfl⟩
  · exact Or.inr rfl

omit [DecidableEq κ] in
theorem setSignerId_signerId [DecidableEq F] (cache : AttestationCache κ F V)
    (signerId : Option F) : (cache.setSignerId signerId).signerId = signerId := by
  rcases cache.setSignerId_cases signerId with ⟨hsame, hs⟩ | hs
  · rw [hs, hsame]
  · rw [hs]

omit [DecidableEq κ] in
/-- The same key again changes nothing. -/
theorem setSignerId_twice [DecidableEq F] (cache : AttestationCache κ F V) (signerId : Option F) :
    (cache.setSignerId signerId).setSignerId signerId = cache.setSignerId signerId := by
  rw [setSignerId, if_pos (cache.setSignerId_signerId signerId).symm]

omit [DecidableEq κ] in
theorem beginWindow_cases {windowStart windowEnd : Int}
    (h : cache.beginWindow windowStart windowEnd = some cache') :
    0 < windowStart ∧ windowStart < windowEnd ∧
    ((cache' = cache ∧ cache.windowKey = some ⟨windowStart, windowEnd⟩) ∨
      cache' = { cache.clear with windowKey := some ⟨windowStart, windowEnd⟩ }) := by
  unfold beginWindow at h
  split at h
  · cases h
  · split at h
    · cases h
    · rename_i hpos hlt
      refine ⟨by omega, by omega, ?_⟩
      split at h
      · rename_i hsame
        exact Or.inl ⟨(Option.some.inj h).symm, hsame.symm⟩
      · exact Or.inr (Option.some.inj h).symm

omit [DecidableEq κ] in
theorem All.beginWindow {windowStart windowEnd : Int} (h : cache.All P)
    (hb : cache.beginWindow windowStart windowEnd = some cache') : cache'.All P := by
  obtain ⟨-, -, ⟨rfl, -⟩ | rfl⟩ := beginWindow_cases hb
  · exact h
  · exact fun _ _ hmem => absurd hmem (Lru.not_mem_clear _)

end AttestationCache
end Oracle
end Linkora
