import Mathlib.Algebra.Order.Group.Defs
import Mathlib.Algebra.Order.Group.Int
import Mathlib.Algebra.Order.Group.Unbundled.Basic
import Mathlib.Order.WithBot
import Linkora.Lib.Recency
import Linkora.Relay.Receipts

/-!
# The typing throttle

`typing-rate-limit.ts` keeps the time of the last typing notification of each pair in a map of
bounded size.  The entries of the map, which iterates in the order of insertion, are a list with
the last insertion in front.  If the pairs that type within one window fit into the map, the
throttle decides as if nothing were ever evicted.
-/

namespace Linkora
namespace Relay
namespace Typing

variable {κ τ : Type} [DecidableEq κ] [AddCommGroup τ] [LinearOrder τ] [IsOrderedAddMonoid τ]

/-- `now - lastSent > ttlMs`, where `ttlMs` may be `Infinity`. -/
def expired (ttlMs : WithTop τ) (now lastSent : τ) : Bool :=
  decide (ttlMs < ((now - lastSent : τ) : WithTop τ))

/-- The bound `maxEntries` is the capacity of the list. -/
structure TypingRateLimitMap (κ τ : Type) where
  ttlMs : WithTop τ
  map : Lru κ τ

namespace TypingRateLimitMap

def new (ttlMs : WithTop τ) (maxEntries : Nat) (h : 0 < maxEntries) : TypingRateLimitMap κ τ where
  ttlMs
  map := Lru.empty maxEntries h

def size (m : TypingRateLimitMap κ τ) : Nat := m.map.entries.length

def evictExpired (m : TypingRateLimitMap κ τ) (now : τ) : TypingRateLimitMap κ τ :=
  { m with map := m.map.dropBack fun x => expired m.ttlMs now x.2 }

def get (m : TypingRateLimitMap κ τ) (key : κ) (now : τ) : Option τ :=
  match m.map.find? key with
  | none => none
  | some lastSent => if expired m.ttlMs now lastSent = true then none else some lastSent

def touch (m : TypingRateLimitMap κ τ) (key : κ) (now : τ) : TypingRateLimitMap κ τ :=
  { m with map := (m.evictExpired now).map.put key now }

end TypingRateLimitMap

/-- `lastSent !== undefined && now - lastSent < TYPING_RATE_LIMIT_WINDOW_MS` -/
def throttled (windowMs : WithTop τ) (now : τ) : Option τ → Bool
  | none => false
  | some lastSent => decide (((now - lastSent : τ) : WithTop τ) < windowMs)

/-! ## Calls -/

inductive TypingCall (κ τ : Type) where
  | get (key : κ) (now : τ)
  | touch (key : κ) (now : τ)

namespace TypingCall

def now : TypingCall κ τ → τ
  | .get _ now => now
  | .touch _ now => now

/-- The key and the time of a touch. -/
def touched : TypingCall κ τ → Option (κ × τ)
  | .get _ _ => none
  | .touch key now => some (key, now)

def step (m : TypingRateLimitMap κ τ) : TypingCall κ τ → TypingRateLimitMap κ τ
  | .get _ _ => m
  | .touch key now => m.touch key now

/-- A call of a plain map, which never evicts. -/
def plainStep (last : κ → Option τ) : TypingCall κ τ → κ → Option τ
  | .get _ _ => last
  | .touch key now => Function.update last key (some now)

end TypingCall

def afterCalls (m : TypingRateLimitMap κ τ) (calls : List (TypingCall κ τ)) :
    TypingRateLimitMap κ τ :=
  calls.foldl TypingCall.step m

def plainAfter (calls : List (TypingCall κ τ)) : κ → Option τ :=
  calls.foldl TypingCall.plainStep fun _ => none

/-- The touches, the last one first. -/
def touches (calls : List (TypingCall κ τ)) : List (κ × τ) :=
  (calls.filterMap TypingCall.touched).reverse

/-- The age of a stamp has come up to `ttlMs`. -/
def reached (ttlMs : WithTop τ) (now lastSent : τ) : Bool :=
  decide (ttlMs ≤ ((now - lastSent : τ) : WithTop τ))

/-- The keys that are touched in the period of length `ttlMs` that ends at a time, both ends
included. -/
def keysWithin (ttlMs : WithTop τ) (calls : List (TypingCall κ τ)) (now : τ) : Finset κ :=
  Recency.aliveKeys (expired ttlMs) (touches calls) now

/-- The same without the beginning of the period. -/
def keysInside (ttlMs : WithTop τ) (calls : List (TypingCall κ τ)) (now : τ) : Finset κ :=
  Recency.aliveKeys (reached ttlMs) (touches calls) now

/-! ## Ages -/

section

variable {ttlMs : WithTop τ}

theorem age_le_age {now now' s s' : τ} (hnow : now ≤ now') (hs : s ≤ s') :
    ((now - s' : τ) : WithTop τ) ≤ ((now' - s : τ) : WithTop τ) :=
  WithTop.coe_le_coe.mpr (sub_le_sub hnow hs)

theorem ageing_expired : Recency.Ageing (expired ttlMs) where
  later hle h := decide_eq_true ((of_decide_eq_true h).trans_le (age_le_age hle le_rfl))
  older hle h := decide_eq_true ((of_decide_eq_true h).trans_le (age_le_age le_rfl hle))

theorem ageing_reached : Recency.Ageing (reached ttlMs) where
  later hle h := decide_eq_true ((of_decide_eq_true h).trans (age_le_age hle le_rfl))
  older hle h := decide_eq_true ((of_decide_eq_true h).trans (age_le_age le_rfl hle))

omit [IsOrderedAddMonoid τ] in
theorem reached_of_expired {now s : τ} (h : expired ttlMs now s = true) :
    reached ttlMs now s = true :=
  decide_eq_true (of_decide_eq_true h).le

end

/-! ## Runs of calls -/

section

variable {ttlMs : WithTop τ} {maxEntries : Nat}
  {gone : τ → τ → Bool} {calls : List (TypingCall κ τ)}

omit [DecidableEq κ] [AddCommGroup τ] [LinearOrder τ] [IsOrderedAddMonoid τ] in
theorem size_le (m : TypingRateLimitMap κ τ) : m.size ≤ m.map.capacity := m.map.bounded

omit [IsOrderedAddMonoid τ] in
theorem afterCalls_fixed (m : TypingRateLimitMap κ τ) (calls : List (TypingCall κ τ)) :
    (afterCalls m calls).ttlMs = m.ttlMs ∧ (afterCalls m calls).map.capacity = m.map.capacity := by
  induction calls generalizing m with
  | nil => exact ⟨rfl, rfl⟩
  | cons call calls ih =>
    obtain ⟨httl, hcapacity⟩ := ih (TypingCall.step m call)
    rw [afterCalls, List.foldl_cons, ← afterCalls, httl, hcapacity]
    cases call with
    | get key now => exact ⟨rfl, rfl⟩
    | touch key now => exact ⟨rfl, rfl⟩

omit [AddCommGroup τ] [IsOrderedAddMonoid τ] in
theorem aliveKeys_mono {calls' : List (TypingCall κ τ)} (now : τ) :
    Recency.aliveKeys gone (touches calls) now ⊆
      Recency.aliveKeys gone (touches (calls ++ calls')) now := by
  intro k hk
  obtain ⟨x, hx, rfl⟩ := List.mem_map.mp (List.mem_toFinset.mp hk)
  refine List.mem_toFinset.mpr (List.mem_map.mpr ⟨x, List.mem_filter.mpr ⟨?_, ?_⟩, rfl⟩)
  · rw [touches, List.filterMap_append, List.reverse_append]
    exact List.mem_append_right _ (List.mem_filter.mp hx).1
  · exact (List.mem_filter.mp hx).2

omit [IsOrderedAddMonoid τ] in
theorem step_touch_map (m : TypingRateLimitMap κ τ) (key : κ) (now : τ) :
    (TypingCall.step m (.touch key now)).map =
      Recency.touch (expired m.ttlMs) m.map key now := rfl

omit [IsOrderedAddMonoid τ] in
/-- The map keeps track of what is not gone. -/
theorem tracks_afterCalls (hmax : 0 < maxEntries) (hgone : Recency.Ageing gone)
    (hexpired : ∀ now s, expired ttlMs now s = true → gone now s = true)
    (hclock : (calls.map TypingCall.now).Pairwise (· ≤ ·))
    (hbusy : ∀ t, (Recency.aliveKeys gone (touches calls) t).card ≤ maxEntries)
    {now : τ} (hnow : ∀ call ∈ calls, call.now ≤ now) :
    Recency.Tracks gone (afterCalls (.new ttlMs maxEntries hmax) calls).map (plainAfter calls)
      (touches calls) now := by
  induction calls using List.reverseRecOn generalizing now with
  | nil => exact Recency.Tracks.empty maxEntries hmax now
  | append_singleton calls call ih =>
    rw [List.map_append, List.map_singleton, List.pairwise_append] at hclock
    obtain ⟨hclock, -, hlast⟩ := hclock
    have hbefore : ∀ c ∈ calls, c.now ≤ call.now := fun c hc =>
      hlast c.now (List.mem_map_of_mem hc) call.now List.mem_cons_self
    have hcall : call.now ≤ now := hnow call (List.mem_append_right _ List.mem_cons_self)
    have htracks := ih hclock
      (fun t => (Finset.card_le_card (aliveKeys_mono t)).trans (hbusy t)) hbefore
    obtain ⟨httl, hcapacity⟩ := afterCalls_fixed (.new ttlMs maxEntries hmax) calls
    rw [afterCalls, List.foldl_append, List.foldl_cons, List.foldl_nil, ← afterCalls, plainAfter,
      List.foldl_append, List.foldl_cons, List.foldl_nil, ← plainAfter]
    cases call with
    | get key t =>
      have hsame : touches (calls ++ [.get key t]) = touches calls := by
        rw [touches, List.filterMap_append]
        exact congrArg List.reverse (List.append_nil _)
      rw [hsame]
      exact htracks.later hgone hcall
    | touch key t =>
      have hmore : touches (calls ++ [.touch key t]) = (key, t) :: touches calls := by
        rw [touches, List.filterMap_append, List.reverse_append]
        rfl
      have hroom := (hbusy t).trans hcapacity.ge
      rw [hmore] at hroom ⊢
      rw [step_touch_map, httl]
      exact (htracks.touch hgone (hexpired t) le_rfl hroom).later hgone hcall

/-- The map keeps its bound, and as long as the keys of a period fit into it, the last touch
within the window is at every call that of the map that never evicts; if a touch exactly
`ttlMs` ago does not count for a period, the decision is still the same. -/
theorem throttle_as_unbounded (hmax : 0 < maxEntries)
    (hclock : (calls.map TypingCall.now).Pairwise (· ≤ ·)) (key : κ) {now : τ}
    (hnow : ∀ call ∈ calls, call.now ≤ now) :
    (afterCalls (.new ttlMs maxEntries hmax) calls).size ≤ maxEntries ∧
      ((∀ t, (keysWithin ttlMs calls t).card ≤ maxEntries) →
        (afterCalls (.new ttlMs maxEntries hmax) calls).get key now =
          (plainAfter calls key).filter fun lastSent => !expired ttlMs now lastSent) ∧
      ((∀ t, (keysInside ttlMs calls t).card ≤ maxEntries) →
        throttled ttlMs now ((afterCalls (.new ttlMs maxEntries hmax) calls).get key now) =
          throttled ttlMs now (plainAfter calls key)) := by
  obtain ⟨httl, hcapacity⟩ := afterCalls_fixed (.new ttlMs maxEntries hmax) calls
  refine ⟨(size_le _).trans hcapacity.le, fun hbusy => ?_, fun hbusy => ?_⟩
  · have htracks := tracks_afterCalls hmax ageing_expired (fun _ _ h => h) hclock hbusy hnow
    rw [TypingRateLimitMap.get, httl]
    cases hfound : (afterCalls (.new ttlMs maxEntries hmax) calls).map.find? key with
    | some s =>
      rw [htracks.last_of_find? hfound]
      cases hage : expired ttlMs now s with
      | true => simp [TypingRateLimitMap.new, Option.filter, hage]
      | false => simp [TypingRateLimitMap.new, Option.filter, hage]
    | none =>
      cases hlast : plainAfter calls key with
      | none => rfl
      | some s =>
        -- What is found nowhere has expired.
        cases hage : expired ttlMs now s with
        | true => simp [Option.filter, hage]
        | false =>
          rw [htracks.find?_of_alive hlast hage] at hfound
          cases hfound
  · have htracks := tracks_afterCalls hmax ageing_reached (fun _ _ h => reached_of_expired h) hclock
      hbusy hnow
    rw [TypingRateLimitMap.get, httl]
    cases hfound : (afterCalls (.new ttlMs maxEntries hmax) calls).map.find? key with
    | some s =>
      rw [htracks.last_of_find? hfound]
      cases hage : expired ttlMs now s with
      | false => simp [TypingRateLimitMap.new, hage]
      | true =>
        have hlate := of_decide_eq_true hage
        have hfree : throttled ttlMs now (some s) = false := decide_eq_false (not_lt.mpr hlate.le)
        have hnone : throttled ttlMs now none = false := rfl
        simp [TypingRateLimitMap.new, hage, hfree, hnone]
    | none =>
      cases hlast : plainAfter calls key with
      | none => rfl
      | some s =>
        cases hage : reached ttlMs now s with
        | true =>
          have hlate := of_decide_eq_true hage
          have hfree : throttled ttlMs now (some s) = false := decide_eq_false (not_lt.mpr hlate)
          have hnone : throttled ttlMs now none = false := rfl
          simp [hfree, hnone]
        | false =>
          rw [htracks.find?_of_alive hlast hage] at hfound
          cases hfound

/-- Two pairs, one of which types again after the window. -/
def twoPairs : List (TypingCall String Int) :=
  [.touch "a:b" 0, .get "a:b" 1000, .touch "c:d" 2000, .touch "a:b" 4000]

theorem throttle_as_unbounded_twoPairs :
    (afterCalls (.new (3000 : Int) 2 (by decide)) twoPairs).get "c:d" 4500 =
        (plainAfter twoPairs "c:d").filter (fun lastSent => !expired (3000 : Int) 4500 lastSent) ∧
      throttled (3000 : Int) 4500 ((afterCalls (.new (3000 : Int) 2 (by decide)) twoPairs).get
        "c:d" 4500) = throttled (3000 : Int) 4500 (plainAfter twoPairs "c:d") := by
  have hkeys : ((touches twoPairs).map Prod.fst).toFinset.card ≤ 2 := by decide
  have hclock : (twoPairs.map TypingCall.now).Pairwise (· ≤ ·) := by decide
  have hnow : ∀ call ∈ twoPairs, call.now ≤ 4500 := by decide
  have htwo : 0 < 2 := by decide
  obtain ⟨-, hget, hthrottled⟩ := throttle_as_unbounded htwo hclock "c:d" hnow
  exact ⟨hget fun t => (Recency.card_aliveKeys_le _ _ t).trans hkeys,
    hthrottled fun t => (Recency.card_aliveKeys_le _ _ t).trans hkeys⟩

end

/-! ## The map of the routes -/

/-- The map of the relay is one of this class, with the constants of `routes.ts`: the entries in
the order of insertion. -/
structure Mirrors (m : TypingRateLimitMap String Int) (map : Relay.TypingRateLimitMap) : Prop where
  ttlMs : m.ttlMs = (Relay.TypingRateLimitMap.TYPING_RATE_LIMIT_WINDOW_MS : WithTop Int)
  maxEntries : m.map.capacity = Relay.TypingRateLimitMap.TYPING_RATE_LIMIT_MAX_PAIRS
  entries : m.map.entries = map.reverse

namespace Mirrors

variable {m : TypingRateLimitMap String Int} {map : Relay.TypingRateLimitMap}

theorem new : Mirrors (.new (Relay.TypingRateLimitMap.TYPING_RATE_LIMIT_WINDOW_MS : WithTop Int)
    Relay.TypingRateLimitMap.TYPING_RATE_LIMIT_MAX_PAIRS (by decide)) [] :=
  ⟨rfl, rfl, rfl⟩

theorem expired_eq (h : Mirrors m map) (now lastSent : Int) : expired m.ttlMs now lastSent =
    decide (Relay.TypingRateLimitMap.TYPING_RATE_LIMIT_WINDOW_MS < now - lastSent) := by
  rw [expired, h.ttlMs]
  exact decide_eq_decide.mpr WithTop.coe_lt_coe

theorem find?_eq (h : Mirrors m map) (key : String) : m.map.find? key =
    (map.find? fun entry => decide (entry.1 = key)).map (·.2) := by
  have hin : ∀ x, x ∈ map ↔ x ∈ m.map.entries := fun x => by rw [h.entries, List.mem_reverse]
  cases hfound : map.find? fun entry => decide (entry.1 = key) with
  | some x =>
    have hkey : x.1 = key := by simpa using List.find?_some hfound
    have hmem : (key, x.2) ∈ m.map.entries := by
      rw [← hkey]
      exact (hin x).mp (List.mem_of_find?_eq_some hfound)
    exact Lru.find?_of_mem hmem
  | none =>
    cases hother : m.map.find? key with
    | none => rfl
    | some s =>
      have hnone := List.find?_eq_none.mp hfound _ ((hin _).mpr (Lru.mem_of_find? hother))
      simp at hnone

theorem get_eq (h : Mirrors m map) (key : String) (now : Int) :
    m.get key now = Relay.TypingRateLimitMap.get map key now := by
  rw [TypingRateLimitMap.get, Relay.TypingRateLimitMap.get, h.find?_eq]
  cases (map.find? fun entry => decide (entry.1 = key)).map (·.2) with
  | none => rfl
  | some s =>
    simp only [h.expired_eq, Option.filter, decide_eq_true_eq]
    split
    · rename_i hlate
      rw [if_neg (by omega)]
    · rename_i hlate
      rw [if_pos (by omega)]

theorem touch (h : Mirrors m map) (key : String) (now : Int) :
    Mirrors (m.touch key now) (Relay.TypingRateLimitMap.touch map key now) where
  ttlMs := h.ttlMs
  maxEntries := h.maxEntries
  entries := by
    have hswept : (m.evictExpired now).map.entries =
        (Relay.TypingRateLimitMap.evictExpired map now).reverse := by
      show m.map.entries.rdropWhile (fun x => expired m.ttlMs now x.2) = _
      rw [h.entries, List.rdropWhile, List.reverse_reverse]
      simp only [h.expired_eq]
      rfl
    have hothers : ((m.evictExpired now).map.erase key).entries =
        ((Relay.TypingRateLimitMap.evictExpired map now).filter
          fun entry => decide (entry.1 ≠ key)).reverse := by
      show (m.evictExpired now).map.entries.filter (fun x => decide (x.1 ≠ key)) = _
      rw [hswept, List.filter_reverse]
    have hcapacity : ((m.evictExpired now).map.erase key).capacity =
        Relay.TypingRateLimitMap.TYPING_RATE_LIMIT_MAX_PAIRS := h.maxEntries
    show (key, now) :: ((m.evictExpired now).map.erase key).evict = _
    simp only [Relay.TypingRateLimitMap.touch]
    rw [Lru.evict, hothers, hcapacity, List.length_reverse, List.reverse_append]
    by_cases hfull : Relay.TypingRateLimitMap.TYPING_RATE_LIMIT_MAX_PAIRS ≤
        ((Relay.TypingRateLimitMap.evictExpired map now).filter
          fun entry => decide (entry.1 ≠ key)).length
    · rw [if_neg (Nat.not_lt.mpr hfull), if_pos hfull, List.dropLast_reverse]
      rfl
    · rw [if_pos (Nat.lt_of_not_le hfull), if_neg hfull]
      rfl

end Mirrors

end Typing
end Relay
end Linkora
