import Linkora.Lib.Store
import Linkora.Lib.Window

/-!
# The limiter of requests

`services/indexer/src/middleware/rateLimit.ts`: `InMemoryRateLimitStore` counts the requests of
a key in a sliding window and notes the refused ones as well, so a key that keeps asking stays
refused.  A sweep at any moment drops the entries that nobody has touched for two windows.
-/

namespace Linkora
namespace Indexer

def WINDOW_MS : Int := 60000

structure MemoryEntry where
  timestamps : List Int
  expiresAt : Int
deriving DecidableEq, Repr

abbrev InMemoryRateLimitStore := Store String MemoryEntry

namespace InMemoryRateLimitStore

def timestamps (entries : InMemoryRateLimitStore) (key : String) : List Int :=
  ((entries.get key).map MemoryEntry.timestamps).getD []

def addAndCount (entries : InMemoryRateLimitStore) (key : String) (nowMs windowMs : Int) :
    Nat × InMemoryRateLimitStore :=
  let cutoff := nowMs - windowMs
  let timestamps := (entries.timestamps key).filter (fun t => cutoff < t) ++ [nowMs]
  (timestamps.length, entries.set key { timestamps, expiresAt := nowMs + windowMs * 2 })

def sweep (entries : InMemoryRateLimitStore) (now : Int) : InMemoryRateLimitStore where
  get key := (entries.get key).filter fun entry => now < entry.expiresAt
  finite_present := entries.finite_present.subset fun key hkey => by
    obtain ⟨entry, hentry⟩ := Option.isSome_iff_exists.mp hkey
    exact Option.isSome_iff_exists.mpr ⟨entry, (Option.filter_eq_some_iff.mp hentry).1⟩

theorem get_addAndCount (entries : InMemoryRateLimitStore) (key other : String)
    (nowMs windowMs : Int) : (entries.addAndCount key nowMs windowMs).2.get other =
      if other = key then
        some ⟨Window.recent windowMs nowMs (entries.timestamps key) ++ [nowMs],
          nowMs + windowMs * 2⟩
      else entries.get other := rfl

theorem timestamps_addAndCount (entries : InMemoryRateLimitStore) (key other : String)
    (nowMs windowMs : Int) : (entries.addAndCount key nowMs windowMs).2.timestamps other =
      if other = key then Window.recent windowMs nowMs (entries.timestamps key) ++ [nowMs]
      else entries.timestamps other := by
  rw [timestamps, get_addAndCount]
  split
  · rfl
  · rfl

theorem get_of_get_sweep {entries : InMemoryRateLimitStore} {key : String} {now : Int}
    {entry : MemoryEntry} (h : (entries.sweep now).get key = some entry) :
    entries.get key = some entry :=
  (Option.filter_eq_some_iff.mp h).1

/-- A sweep keeps the log of a key, or drops one that has expired. -/
theorem timestamps_sweep (entries : InMemoryRateLimitStore) (key : String) (now : Int) :
    (entries.sweep now).timestamps key = entries.timestamps key ∨
      (entries.sweep now).timestamps key = [] ∧
        ∃ entry, entries.get key = some entry ∧ entry.expiresAt ≤ now := by
  have hget : (entries.sweep now).get key =
      (entries.get key).filter fun entry => now < entry.expiresAt := rfl
  rw [timestamps, timestamps, hget]
  cases hentry : entries.get key with
  | none => exact Or.inl rfl
  | some entry =>
    by_cases hlive : now < entry.expiresAt
    · rw [Option.filter_some, if_pos (decide_eq_true hlive)]
      exact Or.inl rfl
    · rw [Option.filter_some, if_neg (by simpa using hlive)]
      exact Or.inr ⟨rfl, entry, rfl, by omega⟩

end InMemoryRateLimitStore

/-- What happens to the limiter: a request that `isAllowedAsync` is asked about, or a sweep. -/
inductive LimiterEvent where
  | request (key : String) (now : Int)
  | sweep (now : Int)
deriving DecidableEq, Repr

def LimiterEvent.time : LimiterEvent → Int
  | .request _ now => now
  | .sweep now => now

/-- The store, with the requests that were allowed. -/
structure RateLimiter where
  store : InMemoryRateLimitStore
  allowed : List (String × Int)

namespace RateLimiter

def new : RateLimiter := { store := ∅, allowed := [] }

/-- `isAllowedAsync` with the store of this process. -/
def isAllowedAsync (limit : Nat) (windowMs : Int) (r : RateLimiter) (key : String) (now : Int) :
    Bool :=
  (r.store.addAndCount key now windowMs).1 ≤ limit

def step (limit : Nat) (windowMs : Int) (r : RateLimiter) : LimiterEvent → RateLimiter
  | .request key now =>
    { store := (r.store.addAndCount key now windowMs).2
      allowed := if r.isAllowedAsync limit windowMs key now then r.allowed ++ [(key, now)]
        else r.allowed }
  | .sweep now => { r with store := r.store.sweep now }

def run (limit : Nat) (windowMs : Int) (events : List LimiterEvent) : RateLimiter :=
  events.foldl (step limit windowMs) new

/-- When the key was let through. -/
def passed (r : RateLimiter) (key : String) : List Int :=
  (r.allowed.filter fun request => request.1 = key).map Prod.snd

/-- The log of every key covers what was let through, and is not dropped too early. -/
structure Sound (limit : Nat) (windowMs last : Int) (r : RateLimiter) : Prop where
  holds : ∀ key, Window.Holds windowMs limit last (r.passed key) (r.store.timestamps key)
  expires : ∀ key entry, r.store.get key = some entry → ∀ t ∈ r.passed key,
    t + windowMs * 2 ≤ entry.expiresAt

variable {limit : Nat} {windowMs last now : Int} {r : RateLimiter} {key : String}

theorem sound_new : Sound limit windowMs last new where
  holds _ := Window.holds_nil
  expires _ _ _ _ ht := absurd ht List.not_mem_nil

theorem Sound.wait (h : Sound limit windowMs last r) (hle : last ≤ now) :
    Sound limit windowMs now r where
  holds key := (h.holds key).wait hle
  expires := h.expires

theorem isAllowedAsync_iff : r.isAllowedAsync limit windowMs key now = true ↔
    (Window.recent windowMs now (r.store.timestamps key)).length < limit := by
  rw [isAllowedAsync, decide_eq_true_iff, InMemoryRateLimitStore.addAndCount]
  show (Window.recent windowMs now (r.store.timestamps key) ++ [now]).length ≤ limit ↔ _
  rw [List.length_append, List.length_singleton]
  exact Nat.succ_le_iff

/-- What is let through at `now` by a request. -/
theorem passed_request (other : String) :
    (r.step limit windowMs (.request key now)).passed other =
      if other = key ∧ r.isAllowedAsync limit windowMs key now = true then r.passed other ++ [now]
      else r.passed other := by
  show (((if r.isAllowedAsync limit windowMs key now then r.allowed ++ [(key, now)]
    else r.allowed).filter fun request => request.1 = other).map Prod.snd) = _
  by_cases hpass : r.isAllowedAsync limit windowMs key now = true
  · rw [if_pos hpass, List.filter_append, List.map_append]
    by_cases hkey : other = key
    · subst hkey
      have hone : [(other, now)].filter (fun request => request.1 = other) = [(other, now)] := by
        simp
      rw [if_pos ⟨rfl, hpass⟩, hone]
      rfl
    · have hnone : [(key, now)].filter (fun request => request.1 = other) = [] := by
        simp [Ne.symm hkey]
      rw [if_neg (fun hand => hkey hand.1), hnone]
      exact List.append_nil _
  · rw [if_neg hpass, if_neg (fun hand => hpass hand.2)]
    rfl

theorem Sound.request (h : Sound limit windowMs now r) (key : String) :
    Sound limit windowMs now (r.step limit windowMs (.request key now)) := by
  constructor
  · intro other
    show Window.Holds windowMs limit now _
      ((r.store.addAndCount key now windowMs).2.timestamps other)
    rw [passed_request, InMemoryRateLimitStore.timestamps_addAndCount]
    by_cases hkey : other = key
    · subst hkey
      rw [if_pos rfl]
      by_cases hpass : r.isAllowedAsync limit windowMs other now = true
      · rw [if_pos ⟨rfl, hpass⟩]
        exact (h.holds other).pass (isAllowedAsync_iff.mp hpass)
      · rw [if_neg (fun hand => hpass hand.2)]
        exact (h.holds other).refuse [now]
    · rw [if_neg hkey, if_neg (fun hand => hkey hand.1)]
      exact h.holds other
  · intro other entry hentry t ht
    have hget : (r.store.addAndCount key now windowMs).2.get other = some entry := hentry
    rw [InMemoryRateLimitStore.get_addAndCount] at hget
    rw [passed_request] at ht
    by_cases hkey : other = key
    · subst hkey
      rw [if_pos rfl] at hget
      obtain rfl := Option.some.inj hget
      have hle : t ≤ now := by
        split at ht
        · rcases List.mem_append.mp ht with ht | ht
          · exact (h.holds other).passed_le t ht
          · exact (List.mem_singleton.mp ht).le
        · exact (h.holds other).passed_le t ht
      show t + windowMs * 2 ≤ now + windowMs * 2
      omega
    · rw [if_neg hkey] at hget
      rw [if_neg (fun hand => hkey hand.1)] at ht
      exact h.expires other entry hget t ht

theorem Sound.sweep (h : Sound limit windowMs now r) (hw : 0 ≤ windowMs) :
    Sound limit windowMs now (r.step limit windowMs (.sweep now)) := by
  constructor
  · intro other
    show Window.Holds windowMs limit now (r.passed other) ((r.store.sweep now).timestamps other)
    rcases r.store.timestamps_sweep other now with hkept | ⟨hdropped, entry, hentry, hexpired⟩
    · rw [hkept]
      exact h.holds other
    · -- nothing was let through for two windows
      rw [hdropped]
      refine (h.holds other).drop fun t ht => ?_
      have hexpires := h.expires other entry hentry t ht
      omega
  · intro other entry hentry t ht
    exact h.expires other entry (InMemoryRateLimitStore.get_of_get_sweep hentry) t ht

theorem Sound.run {events : List LimiterEvent} (h : Sound limit windowMs last r)
    (hw : 0 ≤ windowMs) (hclock : (last :: events.map LimiterEvent.time).Pairwise (· ≤ ·)) :
    ∃ last', Sound limit windowMs last' (events.foldl (step limit windowMs) r) := by
  induction events generalizing r last with
  | nil => exact ⟨last, h⟩
  | cons event rest ih =>
    obtain ⟨hlast, hrest⟩ := List.pairwise_cons.mp hclock
    have hwait := h.wait (hlast event.time (List.mem_cons_self ..))
    cases event with
    | request key now => exact ih (hwait.request key) hrest
    | sweep now => exact ih (hwait.sweep hw) hrest

/-- The log of a key has times of its own requests only. -/
def Noted (r : RateLimiter) (events : List LimiterEvent) : Prop :=
  ∀ key, ∀ t ∈ r.store.timestamps key, LimiterEvent.request key t ∈ events

theorem Noted.step {events : List LimiterEvent} (h : r.Noted events) {event : LimiterEvent}
    (hevent : event ∈ events) : (r.step limit windowMs event).Noted events := by
  intro other t ht
  cases event with
  | request key now =>
    have ht' : t ∈ (r.store.addAndCount key now windowMs).2.timestamps other := ht
    rw [InMemoryRateLimitStore.timestamps_addAndCount] at ht'
    by_cases hkey : other = key
    · subst hkey
      rw [if_pos rfl] at ht'
      rcases List.mem_append.mp ht' with ht | ht
      · exact h other t (List.mem_of_mem_filter ht)
      · rw [List.mem_singleton.mp ht]
        exact hevent
    · rw [if_neg hkey] at ht'
      exact h other t ht'
  | sweep now =>
    have ht' : t ∈ (r.store.sweep now).timestamps other := ht
    rcases r.store.timestamps_sweep other now with hkept | ⟨hdropped, -⟩
    · rw [hkept] at ht'
      exact h other t ht'
    · rw [hdropped] at ht'
      cases ht'

theorem noted_run (limit : Nat) (windowMs : Int) (events : List LimiterEvent) :
    (run limit windowMs events).Noted events := by
  have hgen : ∀ (some : List LimiterEvent) (r : RateLimiter), r.Noted events →
      (∀ event ∈ some, event ∈ events) → (some.foldl (step limit windowMs) r).Noted events := by
    intro some
    induction some with
    | nil => exact fun r h _ => h
    | cons event rest ih =>
      intro r h hall
      exact ih _ (h.step (hall event (List.mem_cons_self ..)))
        fun e he => hall e (List.mem_cons_of_mem _ he)
  exact hgen events new (fun _ _ ht => absurd ht List.not_mem_nil) fun _ he => he

/-- Whatever the requests of whatever keys, and whenever the store is swept, a key is let through
at most `limit` times in any window, and a key that has not asked for a whole window is let
through. -/
theorem limiter_bounds_and_forgives (limit : Nat) {windowMs : Int} (hw : 0 ≤ windowMs)
    {events : List LimiterEvent} (hclock : (events.map LimiterEvent.time).Pairwise (· ≤ ·))
    (key : String) :
    (∀ a, Window.within windowMs a ((run limit windowMs events).passed key) ≤ limit) ∧
      ∀ now, 0 < limit → (∀ t, LimiterEvent.request key t ∈ events → t ≤ now - windowMs) →
        (run limit windowMs events).isAllowedAsync limit windowMs key now = true := by
  constructor
  · intro a
    cases events with
    | nil => exact Nat.zero_le _
    | cons first rest =>
      have htimes : (first.time :: (first :: rest).map LimiterEvent.time).Pairwise (· ≤ ·) := by
        refine List.pairwise_cons.mpr ⟨fun t ht => ?_, hclock⟩
        rcases List.mem_cons.mp ht with rfl | ht
        · exact le_rfl
        · exact (List.pairwise_cons.mp hclock).1 t ht
      obtain ⟨last, hsound⟩ := Sound.run sound_new hw htimes
      exact (hsound.holds key).bounded a
  · intro now hlimit hquiet
    rw [isAllowedAsync_iff]
    have hnone : Window.recent windowMs now ((run limit windowMs events).store.timestamps key) =
        [] := by
      rw [Window.recent, List.filter_eq_nil_iff]
      intro t ht
      have hle := hquiet t (noted_run limit windowMs events key t ht)
      simp only [decide_eq_true_eq]
      omega
    rw [hnone]
    exact hlimit

/-- Two of three requests pass, and the next one after a window of silence. -/
theorem limiter_bounds_and_forgives_three_requests :
    let events : List LimiterEvent :=
      [.request "1.2.3.4" 0, .request "1.2.3.4" 10, .request "1.2.3.4" 20, .sweep 30]
    Window.within WINDOW_MS (-1) ((run 2 WINDOW_MS events).passed "1.2.3.4") ≤ 2 ∧
      (run 2 WINDOW_MS events).isAllowedAsync 2 WINDOW_MS "1.2.3.4" 60020 = true := by
  intro events
  have hboth := limiter_bounds_and_forgives 2 (show 0 ≤ WINDOW_MS by decide)
    (show (events.map LimiterEvent.time).Pairwise (· ≤ ·) by decide) "1.2.3.4"
  refine ⟨hboth.1 (-1), hboth.2 60020 (by decide) ?_⟩
  intro t ht
  simp only [events, List.mem_cons, LimiterEvent.request.injEq, true_and, reduceCtorEq,
    List.not_mem_nil, or_false] at ht
  show t ≤ 60020 - 60000
  omega

end RateLimiter

end Indexer
end Linkora
