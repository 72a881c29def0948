import Mathlib
import Linkora.Lib.Run
import Linkora.Lib.Text

/-!
# Cached feeds

`services/indexer/src/api/routes/feed.ts` with the cache of `cache.ts`: the home feed and the
following feed look their answer up under a key of one form before they query the database, and
store it under that key afterwards.
-/

namespace Linkora
namespace Indexer

/-- A value of the query string: one text, or an array or object of texts. -/
inductive QueryValue where
  | text (s : String)
  | other (parts : List String)

/-- Numbers, texts and dates, as Node reads them. -/
structure FeedPlatform where
  /-- `parseInt(s, 10)`, without a value for `NaN`. -/
  parseInt : String → Option Int
  /-- `Number(value)`, if that is an integer. -/
  number : QueryValue → Option Int
  /-- `buffer.toString("utf-8")` -/
  decodeUtf8 : List UInt8 → String
  /-- `new Date(s).getTime()`, without a value for `NaN`. -/
  dateParse : String → Option Int

inductive FeedRequest where
  | home (viewer limit offset : Option QueryValue)
  | following (address : String) (limit cursor tag : Option QueryValue)

/-- What a request asks for.  An empty tag is no tag. -/
inductive FeedQuery where
  | home (viewer : Option String) (limit offset : Int)
  | following (address : String) (limit : Int) (cursor tag : Option String)
  deriving DecidableEq

/-! ## Reading a request -/

/-- `/^G[A-Z2-7]{55}$/` -/
def isStellarAddress (s : String) : Bool :=
  match s.toList with
  | 'G' :: rest =>
    decide (rest.length = 55) && rest.all fun c => c.isUpper || decide ('2' ≤ c ∧ c ≤ '7')
  | _ => false

/-- `cursor.lastIndexOf("|")`, and the texts before and behind it, neither of them empty. -/
def splitCursor (decoded : String) : Option (String × String) :=
  let parts := Text.split '|' decoded
  let value := String.intercalate "|" parts.dropLast
  let id := parts.getLastD ""
  if parts.length < 2 ∨ value = "" ∨ id = "" then none else some (value, id)

namespace FeedPlatform

variable (P : FeedPlatform)

def decodeCursor (cursor : String) : Option (String × String) :=
  splitCursor (P.decodeUtf8 (Text.fromBase64 cursor))

def decodeTimestampCursor (cursor : String) : Option (Int × String) := do
  let (value, id) ← P.decodeCursor cursor
  let time ← P.dateParse value
  some (time, id)

/-- `typeof value === "string" ? parseInt(value, 10) : fallback`, and the fallback for `NaN`. -/
def homeNumber (value : Option QueryValue) (fallback : Int) : Int :=
  match value with
  | some (.text s) => (P.parseInt s).getD fallback
  | _ => fallback

/-- `z.string().optional()` -/
def optionalString (value : Option QueryValue) : Option (Option String) :=
  match value with
  | none => some none
  | some (.text s) => some (some s)
  | some (.other _) => none

/-- `z.coerce.number().int().min(1).max(100).default(20)` -/
def pageLimit (value : Option QueryValue) : Option Int :=
  match value with
  | none => some 20
  | some value => (P.number value).filter fun limit => decide (1 ≤ limit ∧ limit ≤ 100)

/-- What a request asks for, or nothing if a validator refuses it. -/
def read : FeedRequest → Option FeedQuery
  | .home viewer limit offset =>
    let viewer := match viewer with
      | some (.text s) => some s
      | _ => none
    some (.home viewer (P.homeNumber limit 20) (P.homeNumber offset 0))
  | .following address limit cursor tag => do
    guard (isStellarAddress address = true)
    let limit ← P.pageLimit limit
    let cursor ← optionalString cursor
    let tag ← optionalString tag
    some (.following address limit cursor (tag.filter (· ≠ "")))

end FeedPlatform

/-! ## Keys -/

def feedPrefix : String := "linkora:cache:feed:"

/-- ``${PREFIX}feed:${viewerId}:${limit}:${cursor}`` -/
def feedKey (viewerId cursor : String) (limit : Int) : String :=
  feedPrefix ++ viewerId ++ ":" ++ toString limit ++ ":" ++ cursor

/-- A feed with a tag bypasses the cache. -/
def FeedQuery.cacheKey : FeedQuery → Option String
  | .home viewer limit offset => some (feedKey (viewer.getD "anon") (toString offset) limit)
  | .following address limit cursor none => some (feedKey address (cursor.getD "") limit)
  | .following _ _ _ (some _) => none

/-! ## The routes -/

/-- An answer in the cache, with the query for which it was computed. -/
structure CachedFeed (β : Type) where
  body : β
  origin : FeedQuery

structure FeedServer (β : Type) where
  cache : String → Option (CachedFeed β)
  /-- The queries whose answer is being computed. -/
  waiting : List FeedQuery
  /-- Everything asked for so far. -/
  asked : List FeedQuery
  /-- The queries answered from the cache, and their answers. -/
  served : List (FeedQuery × CachedFeed β)

/-- What happens: a request comes in, and the cache answers its lookup or not; the database
answers one of the computed queries, and the answer is stored or not; an answer is given up after
an error; keys expire or are invalidated. -/
inductive FeedLabel (β : Type) where
  | request (r : FeedRequest) (reachable : Bool)
  | answer (i : Nat) (body : β) (stored : Bool)
  | fail (i : Nat)
  | forget (gone : String → Bool)

/-- The router over a `Pool` or over a `Database`. -/
structure FeedRouter where
  platform : FeedPlatform
  isPgPool : Bool

namespace FeedRouter

variable {β : Type} (R : FeedRouter)

/-- `decodeTimestampCursor` fails, which a `Database` does not look at. -/
def rejects : FeedQuery → Bool
  | .home .. => false
  | .following _ _ cursor _ =>
    R.isPgPool && cursor.any fun c => (R.platform.decodeTimestampCursor c).isNone

/-- Over a `Database` the following feed is not stored. -/
def stores : FeedQuery → Bool
  | .home .. => true
  | q@(.following ..) => R.isPgPool && !R.rejects q

def step (s : FeedServer β) : FeedLabel β → Option (FeedServer β)
  | .request r reachable =>
    match R.platform.read r with
    | none => some s
    | some q =>
      let s := { s with asked := q :: s.asked }
      match q.cacheKey.bind s.cache with
      | some cached =>
        if reachable = true then some { s with served := (q, cached) :: s.served }
        else some { s with waiting := q :: s.waiting }
      | none => some { s with waiting := q :: s.waiting }
  | .answer i body stored => do
    let q ← s.waiting[i]?
    let s := { s with waiting := s.waiting.eraseIdx i }
    match q.cacheKey with
    | some key =>
      if R.stores q = true ∧ stored = true then
        some { s with cache := Function.update s.cache key (some ⟨body, q⟩) }
      else some s
    | none => some s
  | .fail i => do
    let _ ← s.waiting[i]?
    some { s with waiting := s.waiting.eraseIdx i }
  | .forget gone =>
    some { s with cache := fun key => if gone key = true then none else s.cache key }

end FeedRouter

namespace FeedServer

variable {β : Type}

def init : FeedServer β where
  cache := fun _ => none
  waiting := []
  asked := []
  served := []

/-- Every answer served from the cache was computed for the query that was asked, and the query
is none that the route rejects. -/
def Sound (R : FeedRouter) (s : FeedServer β) : Prop :=
  ∀ q cached, (q, cached) ∈ s.served → cached.origin = q ∧ R.rejects q = false

end FeedServer

/-! ## Equal keys -/

/-- The keys of the home feed and of the following feed read alike. -/
def ReadAlike (viewer : String) (limit offset : Int) (address : String) (limit' : Int)
    (cursor : String) : Prop :=
  viewer = address ∧ limit = limit' ∧ cursor = toString offset ∨
  viewer = address ++ ":" ++ toString limit' ∧ cursor = toString limit ++ ":" ++ toString offset ∨
  ∃ x, viewer = address ++ ":" ++ toString limit' ++ ":" ++ x ∧
    cursor = x ++ ":" ++ toString limit ++ ":" ++ toString offset

/-- Different queries with one key: a viewer called `anon`, a cursor that is empty, or a cursor
that ends as the key of a home feed does. -/
def Clash : FeedQuery → FeedQuery → Prop
  | .home viewer limit offset, .home viewer' limit' offset' =>
    limit = limit' ∧ offset = offset' ∧
      (viewer = none ∧ viewer' = some "anon" ∨ viewer = some "anon" ∧ viewer' = none)
  | .following address limit cursor tag, .following address' limit' cursor' tag' =>
    tag = none ∧ tag' = none ∧ address = address' ∧ limit = limit' ∧
      (cursor = none ∧ cursor' = some "" ∨ cursor = some "" ∧ cursor' = none)
  | .home viewer limit offset, .following address limit' cursor tag =>
    tag = none ∧ ReadAlike (viewer.getD "anon") limit offset address limit' (cursor.getD "")
  | .following address limit' cursor tag, .home viewer limit offset =>
    tag = none ∧ ReadAlike (viewer.getD "anon") limit offset address limit' (cursor.getD "")

/-- An address holds no colon. -/
def FeedQuery.WellFormed : FeedQuery → Prop
  | .home .. => True
  | .following address .. => ':' ∉ address.toList

theorem colon_not_mem_address {s : String} (h : isStellarAddress s = true) : ':' ∉ s.toList := by
  rw [isStellarAddress] at h
  split at h
  · rename_i rest heq
    rw [heq]
    intro hmem
    rcases List.mem_cons.mp hmem with hG | hmem
    · cases hG
    · have hall := (Bool.and_eq_true_iff.mp h).2
      have hcolon := List.all_eq_true.mp hall ':' hmem
      cases hcolon
  · cases h

theorem colon_not_mem_toString (n : Int) : ':' ∉ (toString n).toList :=
  Text.not_mem_toString_int rfl (by decide) n

theorem FeedPlatform.read_wellFormed {P : FeedPlatform} {r : FeedRequest} {q : FeedQuery}
    (h : P.read r = some q) : q.WellFormed := by
  cases r with
  | home viewer limit offset =>
    obtain rfl := Option.some.inj (show some (FeedQuery.home _ _ _) = some q from h)
    trivial
  | following address limit cursor tag =>
    rw [FeedPlatform.read] at h
    by_cases haddress : isStellarAddress address = true
    · simp only [haddress, guard_true, Option.pure_def, Option.bind_eq_bind, Option.bind_some] at h
      obtain ⟨l, -, h⟩ := Option.bind_eq_some_iff.mp h
      obtain ⟨c, -, h⟩ := Option.bind_eq_some_iff.mp h
      obtain ⟨t, -, h⟩ := Option.bind_eq_some_iff.mp h
      rw [← Option.some.inj h]
      exact colon_not_mem_address haddress
    · simp [haddress] at h

theorem feedKey_toList (viewerId cursor : String) (limit : Int) :
    (feedKey viewerId cursor limit).toList = feedPrefix.toList ++
      (viewerId.toList ++ ':' :: ((toString limit).toList ++ ':' :: cursor.toList)) := by
  simp [feedKey]

theorem feedKey_tail {v c v' c' : String} {l l' : Int} (h : feedKey v c l = feedKey v' c' l') :
    v.toList ++ ':' :: ((toString l).toList ++ ':' :: c.toList) =
      v'.toList ++ ':' :: ((toString l').toList ++ ':' :: c'.toList) := by
  have hlists := congrArg String.toList h
  rw [feedKey_toList, feedKey_toList] at hlists
  exact List.append_cancel_left hlists

/-- The two texts behind the viewer can be read off the end. -/
theorem feedKey_home_inj {v v' : String} {l o l' o' : Int}
    (h : feedKey v (toString o) l = feedKey v' (toString o') l') : v = v' ∧ l = l' ∧ o = o' := by
  have htail := feedKey_tail h
  rw [← List.cons_append, ← List.append_assoc, ← List.cons_append, ← List.append_assoc] at htail
  obtain ⟨hrest, ho⟩ := Text.append_cons_inj_last (colon_not_mem_toString o)
    (colon_not_mem_toString o') htail
  obtain ⟨hv, hl⟩ := Text.append_cons_inj_last (colon_not_mem_toString l)
    (colon_not_mem_toString l') hrest
  exact ⟨String.toList_inj.mp hv, Text.toString_int_injective (String.toList_inj.mp hl),
    Text.toString_int_injective (String.toList_inj.mp ho)⟩

/-- The two texts before the cursor can be read off the front. -/
theorem feedKey_following_inj {a c a' c' : String} {l l' : Int} (ha : ':' ∉ a.toList)
    (ha' : ':' ∉ a'.toList) (h : feedKey a c l = feedKey a' c' l') : a = a' ∧ l = l' ∧ c = c' := by
  obtain ⟨haa, hrest⟩ := Text.append_cons_inj ha ha' (feedKey_tail h)
  obtain ⟨hl, hc⟩ := Text.append_cons_inj (colon_not_mem_toString l) (colon_not_mem_toString l')
    hrest
  exact ⟨String.toList_inj.mp haa, Text.toString_int_injective (String.toList_inj.mp hl),
    String.toList_inj.mp hc⟩

theorem feedKey_eq_iff_readAlike {v a c : String} {l o l' : Int} (ha : ':' ∉ a.toList) :
    feedKey v (toString o) l = feedKey a c l' ↔ ReadAlike v l o a l' c := by
  constructor
  · intro h
    have htail := feedKey_tail h
    by_cases hv : ':' ∈ v.toList
    · obtain ⟨v₁, v₂, hsplit, hv₁⟩ := List.eq_append_cons_of_mem hv
      rw [hsplit, List.append_assoc, List.cons_append] at htail
      obtain ⟨rfl, hrest⟩ := Text.append_cons_inj hv₁ ha htail
      by_cases hv₂ : ':' ∈ v₂
      · obtain ⟨w, x, rfl, hw⟩ := List.eq_append_cons_of_mem hv₂
        rw [List.append_assoc, List.cons_append] at hrest
        obtain ⟨rfl, hc⟩ := Text.append_cons_inj hw (colon_not_mem_toString l') hrest
        refine Or.inr (Or.inr ⟨String.ofList x, ?_, ?_⟩)
        · refine String.toList_inj.mp ?_
          simp [hsplit]
        · refine String.toList_inj.mp ?_
          simp [← hc]
      · obtain ⟨rfl, hc⟩ := Text.append_cons_inj hv₂ (colon_not_mem_toString l') hrest
        refine Or.inr (Or.inl ⟨?_, ?_⟩)
        · refine String.toList_inj.mp ?_
          simp [hsplit]
        · refine String.toList_inj.mp ?_
          simp [← hc]
    · obtain ⟨hva, hrest⟩ := Text.append_cons_inj hv ha htail
      obtain ⟨hl, ho⟩ := Text.append_cons_inj (colon_not_mem_toString l)
        (colon_not_mem_toString l') hrest
      exact Or.inl ⟨String.toList_inj.mp hva,
        Text.toString_int_injective (String.toList_inj.mp hl), (String.toList_inj.mp ho).symm⟩
  · rintro (⟨rfl, rfl, rfl⟩ | ⟨rfl, rfl⟩ | ⟨x, rfl, rfl⟩)
    · rfl
    · refine String.toList_inj.mp ?_
      simp [feedKey]
    · refine String.toList_inj.mp ?_
      simp [feedKey]

theorem cacheKey_home (viewer : Option String) (limit offset : Int) :
    (FeedQuery.home viewer limit offset).cacheKey =
      some (feedKey (viewer.getD "anon") (toString offset) limit) := rfl

theorem cacheKey_following {address : String} {limit : Int} {cursor tag : Option String}
    {key : String} (h : (FeedQuery.following address limit cursor tag).cacheKey = some key) :
    tag = none ∧ feedKey address (cursor.getD "") limit = key := by
  cases tag with
  | none => exact ⟨rfl, Option.some.inj h⟩
  | some tag => cases h

/-- Two queries have one key if they are equal or clash. -/
theorem eq_or_clash_of_cacheKey {q q' : FeedQuery} {key : String} (hq : q.WellFormed)
    (hq' : q'.WellFormed) (h : q.cacheKey = some key) (h' : q'.cacheKey = some key) :
    q = q' ∨ Clash q q' := by
  cases q with
  | home viewer limit offset =>
    cases q' with
    | home viewer' limit' offset' =>
      obtain ⟨hviewer, rfl, rfl⟩ := feedKey_home_inj (Option.some.inj (h.trans h'.symm))
      cases viewer with
      | none =>
        cases viewer' with
        | none => exact Or.inl rfl
        | some viewer' => exact Or.inr ⟨rfl, rfl, Or.inl ⟨rfl, congrArg some hviewer.symm⟩⟩
      | some viewer =>
        cases viewer' with
        | none => exact Or.inr ⟨rfl, rfl, Or.inr ⟨congrArg some hviewer, rfl⟩⟩
        | some viewer' =>
          obtain rfl : viewer = viewer' := hviewer
          exact Or.inl rfl
    | following address limit' cursor tag =>
      obtain ⟨htag, hkey⟩ := cacheKey_following h'
      rw [cacheKey_home] at h
      have hsame := (Option.some.inj h).trans hkey.symm
      exact Or.inr ⟨htag, (feedKey_eq_iff_readAlike hq').mp hsame⟩
  | following address limit cursor tag =>
    obtain ⟨htag, hkey⟩ := cacheKey_following h
    cases q' with
    | home viewer limit' offset =>
      rw [cacheKey_home] at h'
      have hsame := (Option.some.inj h').trans hkey.symm
      exact Or.inr ⟨htag, (feedKey_eq_iff_readAlike hq).mp hsame⟩
    | following address' limit' cursor' tag' =>
      obtain ⟨htag', hkey'⟩ := cacheKey_following h'
      obtain ⟨rfl, rfl, hcursor⟩ := feedKey_following_inj hq hq' (hkey.trans hkey'.symm)
      subst htag htag'
      cases cursor with
      | none =>
        cases cursor' with
        | none => exact Or.inl rfl
        | some cursor' =>
          exact Or.inr ⟨rfl, rfl, rfl, rfl, Or.inl ⟨rfl, congrArg some hcursor.symm⟩⟩
      | some cursor =>
        cases cursor' with
        | none => exact Or.inr ⟨rfl, rfl, rfl, rfl, Or.inr ⟨congrArg some hcursor, rfl⟩⟩
        | some cursor' =>
          obtain rfl : cursor = cursor' := hcursor
          exact Or.inl rfl

/-- Queries that clash have one key and differ. -/
theorem Clash.cacheKey {q q' : FeedQuery} (hq : q.WellFormed) (hq' : q'.WellFormed)
    (h : Clash q q') : ∃ key, q.cacheKey = some key ∧ q'.cacheKey = some key ∧ q ≠ q' := by
  cases q with
  | home viewer limit offset =>
    cases q' with
    | home viewer' limit' offset' =>
      obtain ⟨rfl, rfl, ⟨rfl, rfl⟩ | ⟨rfl, rfl⟩⟩ := h
      · exact ⟨_, rfl, rfl, fun heq => by cases heq⟩
      · exact ⟨_, rfl, rfl, fun heq => by cases heq⟩
    | following address limit' cursor tag =>
      obtain ⟨rfl, halike⟩ := h
      have hkey := (feedKey_eq_iff_readAlike hq').mpr halike
      exact ⟨_, rfl, congrArg some hkey.symm, fun heq => by cases heq⟩
  | following address limit cursor tag =>
    cases q' with
    | home viewer limit' offset =>
      obtain ⟨rfl, halike⟩ := h
      have hkey := (feedKey_eq_iff_readAlike hq).mpr halike
      exact ⟨_, rfl, congrArg some hkey, fun heq => by cases heq⟩
    | following address' limit' cursor' tag' =>
      obtain ⟨rfl, rfl, rfl, rfl, ⟨rfl, rfl⟩ | ⟨rfl, rfl⟩⟩ := h
      · exact ⟨_, rfl, rfl, fun heq => by cases heq⟩
      · exact ⟨_, rfl, rfl, fun heq => by cases heq⟩

/-! ## Runs -/

namespace FeedRouter

variable {β : Type} {R : FeedRouter} {s s' : FeedServer β} {q q' : FeedQuery}

theorem rejects_of_stores (h : R.stores q = true) : R.rejects q = false := by
  cases q with
  | home => rfl
  | following =>
    have hboth := (Bool.and_eq_true_iff.mp h).2
    simpa using hboth

/-- No query that clashes with the request has been made before whose answer is stored. -/
def Apart (R : FeedRouter) (s : FeedServer β) : FeedLabel β → Prop
  | .request r _ => ∀ q, R.platform.read r = some q →
      ∀ q' ∈ s.asked, R.stores q' = true → ¬Clash q' q
  | _ => True

/-- What is stored was asked for, and stands under its own key. -/
structure Kept (R : FeedRouter) (s : FeedServer β) : Prop where
  cache : ∀ key cached, s.cache key = some cached → cached.origin.cacheKey = some key ∧
    R.stores cached.origin = true ∧ cached.origin ∈ s.asked
  waiting : ∀ q ∈ s.waiting, q ∈ s.asked
  asked : ∀ q ∈ s.asked, q.WellFormed
  sound : s.Sound R

theorem kept_init : R.Kept (FeedServer.init : FeedServer β) where
  cache key cached h := by cases h
  waiting q h := by cases h
  asked q h := by cases h
  sound q cached h := by cases h

theorem Kept.request (h : R.Kept s) {r : FeedRequest} {reachable : Bool}
    (hapart : R.Apart s (.request r reachable))
    (hstep : R.step s (.request r reachable) = some s') : R.Kept s' := by
  cases hread : R.platform.read r with
  | none =>
    simp only [step, hread] at hstep
    exact Option.some.inj hstep ▸ h
  | some q =>
    have hwell := FeedPlatform.read_wellFormed hread
    have hasked : ∀ p ∈ q :: s.asked, p.WellFormed := by
      intro p hp
      rcases List.mem_cons.mp hp with rfl | hp
      · exact hwell
      · exact h.asked p hp
    have hcache : ∀ key cached, s.cache key = some cached →
        cached.origin.cacheKey = some key ∧ R.stores cached.origin = true ∧
          cached.origin ∈ q :: s.asked := by
      intro key cached hcached
      obtain ⟨hkey, hstores, hmem⟩ := h.cache key cached hcached
      exact ⟨hkey, hstores, List.mem_cons_of_mem _ hmem⟩
    have hqueued : R.Kept { s with asked := q :: s.asked, waiting := q :: s.waiting } := by
      refine ⟨hcache, fun p hp => ?_, hasked, h.sound⟩
      rcases List.mem_cons.mp hp with rfl | hp
      · exact List.mem_cons_self
      · exact List.mem_cons_of_mem _ (h.waiting p hp)
    cases hhit : q.cacheKey.bind s.cache with
    | none =>
      simp only [step, hread, hhit] at hstep
      exact Option.some.inj hstep ▸ hqueued
    | some cached =>
      cases reachable with
      | false =>
        simp only [step, hread, hhit, if_neg Bool.false_ne_true] at hstep
        exact Option.some.inj hstep ▸ hqueued
      | true =>
        simp only [step, hread, hhit, if_true] at hstep
        rw [← Option.some.inj hstep]
        refine ⟨hcache, fun p hp => List.mem_cons_of_mem _ (h.waiting p hp), hasked, ?_⟩
        intro p c hpc
        rcases List.mem_cons.mp hpc with heq | hpc
        · obtain ⟨rfl, rfl⟩ := Prod.mk.inj heq
          -- The entry stands under the key of the query, and no query asked before clashes.
          obtain ⟨key, hkey, hcached⟩ := Option.bind_eq_some_iff.mp hhit
          obtain ⟨hown, hstores, hmem⟩ := h.cache key c hcached
          rcases eq_or_clash_of_cacheKey (h.asked _ hmem) hwell hown hkey with hsame | hclash
          · exact ⟨hsame, hsame ▸ rejects_of_stores hstores⟩
          · exact absurd hclash (hapart p hread _ hmem hstores)
        · exact h.sound p c hpc

theorem Kept.answer (h : R.Kept s) {i : Nat} {body : β} {stored : Bool}
    (hstep : R.step s (.answer i body stored) = some s') : R.Kept s' := by
  obtain ⟨q, hq, hstep⟩ := Option.bind_eq_some_iff.mp hstep
  have hmem : q ∈ s.asked := h.waiting q (List.mem_of_getElem? hq)
  have hwaiting : ∀ p ∈ s.waiting.eraseIdx i, p ∈ s.asked := fun p hp =>
    h.waiting p (List.mem_of_mem_eraseIdx hp)
  have hdone : R.Kept { s with waiting := s.waiting.eraseIdx i } :=
    ⟨h.cache, hwaiting, h.asked, h.sound⟩
  cases hkey : q.cacheKey with
  | none =>
    simp only [hkey] at hstep
    exact Option.some.inj hstep ▸ hdone
  | some key =>
    simp only [hkey] at hstep
    by_cases hstores : R.stores q = true ∧ stored = true
    · rw [if_pos hstores] at hstep
      rw [← Option.some.inj hstep]
      refine ⟨fun k cached hcached => ?_, hwaiting, h.asked, h.sound⟩
      by_cases hk : k = key
      · subst hk
        have hnew : some (⟨body, q⟩ : CachedFeed β) = some cached := by
          rw [← hcached]
          exact (Function.update_self k _ s.cache).symm
        rw [← Option.some.inj hnew]
        exact ⟨hkey, hstores.1, hmem⟩
      · refine h.cache k cached ?_
        rw [← hcached]
        exact (Function.update_of_ne hk _ s.cache).symm
    · rw [if_neg hstores] at hstep
      exact Option.some.inj hstep ▸ hdone

theorem Kept.step (h : R.Kept s) {l : FeedLabel β} (hapart : R.Apart s l)
    (hstep : R.step s l = some s') : R.Kept s' := by
  cases l with
  | request r reachable => exact h.request hapart hstep
  | answer i body stored => exact h.answer hstep
  | fail i =>
    obtain ⟨q, -, hstep⟩ := Option.bind_eq_some_iff.mp hstep
    rw [← Option.some.inj hstep]
    exact ⟨h.cache, fun p hp => h.waiting p (List.mem_of_mem_eraseIdx hp), h.asked, h.sound⟩
  | forget gone =>
    rw [← Option.some.inj hstep]
    refine ⟨fun key cached hcached => h.cache key cached ?_, h.waiting, h.asked, h.sound⟩
    have hcached' : (if gone key = true then none else s.cache key) = some cached := hcached
    split at hcached'
    · cases hcached'
    · exact hcached'

/-- The state after a request was answered and stored, and a request with the same key came in. -/
def servedTwice (q' q : FeedQuery) (key : String) (body : β) : FeedServer β where
  cache := Function.update (fun _ => none) key (some ⟨body, q'⟩)
  waiting := []
  asked := [q, q']
  served := [(q, ⟨body, q'⟩)]

theorem served_twice (R : FeedRouter) (C : FeedServer β → FeedLabel β → Prop)
    {r r' : FeedRequest} {key : String} (body : β) (hr' : R.platform.read r' = some q')
    (hr : R.platform.read r = some q)
    (hstores : R.stores q' = true) (hkey' : q'.cacheKey = some key)
    (hkey : q.cacheKey = some key) (hfirst : C .init (.request r' true))
    (hanswer : ∀ s, C s (.answer 0 body true))
    (hsecond : ∀ s : FeedServer β, s.asked = [q'] → C s (.request r true)) :
    Run (Run.Guarded (StepOf R.step) C) FeedServer.init
      [.request r' true, .answer 0 body true, .request r true] (servedTwice q' q key body) := by
  have hone : R.step (.init : FeedServer β) (.request r' true) =
      some { FeedServer.init with asked := [q'], waiting := [q'] } := by
    simp only [step, hr', hkey']
    rfl
  have htwo : R.step ({ FeedServer.init with asked := [q'], waiting := [q'] } : FeedServer β)
      (.answer 0 body true) = some {
        cache := Function.update (fun _ => none) key (some ⟨body, q'⟩)
        waiting := []
        asked := [q']
        served := [] } := by
    simp only [step, List.getElem?_cons_zero, Option.bind_eq_bind, Option.bind_some, hkey', hstores,
      and_self, if_true]
    rfl
  have hthree : R.step (⟨Function.update (fun _ => none) key (some ⟨body, q'⟩), [], [q'], []⟩ :
      FeedServer β) (.request r true) = some (servedTwice q' q key body) := by
    simp only [step, hr, hkey, Option.bind_some, Function.update_self, if_true]
    rfl
  exact ((Run.single ⟨hone, hfirst⟩).snoc ⟨htwo, hanswer _⟩).snoc ⟨hthree, hsecond _ rfl⟩

theorem not_sound_servedTwice {key : String} {body : β} (hne : q' ≠ q) :
    ¬(servedTwice q' q key body).Sound R := fun h =>
  hne (h q ⟨body, q'⟩ List.mem_cons_self).1

/-- No answer from the cache is for another query or for one that the route rejects, as long as
no query follows a stored one that clashes with it.  Every such pair of requests does get the
wrong answer. -/
theorem cached_feeds_answer_requests {ls : List (FeedLabel β)}
    (h : Run (Run.Guarded (StepOf R.step) R.Apart) FeedServer.init ls s) :
    s.Sound R ∧ ∀ r' r q' q (body : β), R.platform.read r' = some q' →
      R.platform.read r = some q → R.stores q' = true → Clash q' q →
      ∃ t, Run (StepOf R.step) FeedServer.init
        [.request r' true, .answer 0 body true, .request r true] t ∧ ¬t.Sound R := by
  constructor
  · exact (h.invariant (fun _ _ _ hkept hl => hkept.step hl.2 hl.1) kept_init).sound
  · intro r' r q' q body hr' hr hstores hclash
    obtain ⟨key, hkey', hkey, hne⟩ := hclash.cacheKey (FeedPlatform.read_wellFormed hr')
      (FeedPlatform.read_wellFormed hr)
    have hrun := served_twice R (fun _ _ => True) body hr' hr hstores hkey' hkey trivial
      (fun _ => trivial) fun _ _ => trivial
    exact ⟨_, hrun.of_guarded, not_sound_servedTwice hne⟩

/-- A platform that reads the numbers 0 and 20, and no dates. -/
def plainFeedPlatform : FeedPlatform where
  parseInt s := if s = "20" then some 20 else if s = "0" then some 0 else none
  number _ := none
  decodeUtf8 bytes := String.ofList (bytes.map fun b => Char.ofNat b.toNat)
  dateParse _ := none

/-- Two requests for one home feed, the second answered from the cache. -/
theorem cached_feeds_answer_requests_bob : ∃ s : FeedServer Nat,
    Run (Run.Guarded (StepOf (step ⟨plainFeedPlatform, true⟩)) (Apart ⟨plainFeedPlatform, true⟩))
      FeedServer.init
      [.request (.home (some (.text "bob")) none none) true, .answer 0 7 true,
        .request (.home (some (.text "bob")) none none) true] s ∧
    s.served = [(.home (some "bob") 20 0, ⟨7, .home (some "bob") 20 0⟩)] ∧
    s.Sound ⟨plainFeedPlatform, true⟩ := by
  have hread : plainFeedPlatform.read (.home (some (.text "bob")) none none) =
      some (.home (some "bob") 20 0) := rfl
  have hrun := served_twice ⟨plainFeedPlatform, true⟩ (Apart ⟨plainFeedPlatform, true⟩)
    (7 : Nat) hread hread rfl rfl rfl
    (fun q _ q' hq' => absurd hq' List.not_mem_nil) (fun _ => trivial)
    fun s hs q hq q' hq' _ hclash => by
      rw [hs] at hq'
      obtain rfl := List.mem_singleton.mp hq'
      obtain rfl := Option.some.inj hq
      rcases hclash.2.2 with ⟨hnone, -⟩ | ⟨-, hnone⟩ <;> cases hnone
  exact ⟨_, hrun, rfl, (cached_feeds_answer_requests hrun).1⟩

theorem plain_rejects (address cursor : String) (limit : Int) (tag : Option String) :
    rejects ⟨plainFeedPlatform, true⟩ (.following address limit (some cursor) tag) = true := by
  have hnone : plainFeedPlatform.decodeTimestampCursor cursor = none := by
    rw [FeedPlatform.decodeTimestampCursor]
    cases plainFeedPlatform.decodeCursor cursor with
    | none => rfl
    | some pair => rfl
  rw [rejects, Option.any_some, hnone]
  rfl

def someAddress : String := "GAAAAAAAAAAAAAAAAAAAAAAAAAAAAAAAAAAAAAAAAAAAAAAAAAAAAAAA"

/-- A following feed with the invalid cursor `0` is answered with the home feed of its address. -/
theorem home_feed_served_as_following : ∃ s : FeedServer Nat,
    Run (StepOf (step ⟨plainFeedPlatform, true⟩)) FeedServer.init
      [.request (.home (some (.text someAddress)) none none) true, .answer 0 7 true,
        .request (.following someAddress none (some (.text "0")) none) true] s ∧
    (∃ q cached, (q, cached) ∈ s.served ∧ cached.origin ≠ q ∧
      rejects ⟨plainFeedPlatform, true⟩ q = true) ∧
    ¬s.Sound ⟨plainFeedPlatform, true⟩ := by
  have haddress : isStellarAddress someAddress = true := by decide
  have hread : plainFeedPlatform.read (.following someAddress none (some (.text "0")) none) =
      some (.following someAddress 20 (some "0") none) := by
    simp [FeedPlatform.read, haddress, FeedPlatform.pageLimit, FeedPlatform.optionalString]
  have hhome : plainFeedPlatform.read (.home (some (.text someAddress)) none none) =
      some (.home (some someAddress) 20 0) := rfl
  have hrun := served_twice ⟨plainFeedPlatform, true⟩ (fun _ _ => True) (7 : Nat) hhome hread
    rfl (show _ = some (feedKey someAddress "0" 20) from rfl) rfl trivial
    (fun _ => trivial) fun _ _ => trivial
  have hne : FeedQuery.home (some someAddress) 20 0 ≠ .following someAddress 20 (some "0") none :=
    fun heq => by cases heq
  exact ⟨_, hrun.of_guarded, ⟨_, _, List.mem_cons_self, hne, plain_rejects _ _ _ _⟩,
    not_sound_servedTwice hne⟩

end FeedRouter

end Indexer
end Linkora
