import Mathlib.Algebra.Order.Archimedean.Basic
import Mathlib.Algebra.Order.Ring.Rat
import Mathlib.Tactic.Linarith
import Linkora.Lib.Run

/-!
# The token bucket

`services/indexer/src/ratelimit.ts`: the bucket that paces the calls to the RPC and the frames
of a WebSocket connection.  Its numbers are rationals.  A call reads the clock where the source
calls `now`, and the clock may go back.
-/

namespace Linkora
namespace Indexer

structure TokenBucketOptions where
  /-- Sustained refill rate in tokens per second. -/
  ratePerSec : Rat
  burst : Option Rat
  deriving DecidableEq

def TokenBucketOptions.capacity (opts : TokenBucketOptions) : Rat :=
  opts.burst.getD opts.ratePerSec

structure TokenBucket where
  ratePerSec : Rat
  capacity : Rat
  tokens : Rat
  lastRefill : Rat
  deriving DecidableEq

namespace TokenBucket

/-- The constructor, which throws for a rate that is not positive. -/
def new (opts : TokenBucketOptions) (now : Rat) : Option TokenBucket :=
  if opts.ratePerSec ≤ 0 then none
  else some ⟨opts.ratePerSec, opts.capacity, opts.capacity, now⟩

def refill (b : TokenBucket) (ts : Rat) : TokenBucket :=
  let elapsedSec := (ts - b.lastRefill) / 1000
  if elapsedSec ≤ 0 then b
  else { b with
    tokens := min b.capacity (b.tokens + elapsedSec * b.ratePerSec)
    lastRefill := ts }

def tryRemove (b : TokenBucket) (ts : Rat) : Bool × TokenBucket :=
  let b := b.refill ts
  if 1 ≤ b.tokens then (true, { b with tokens := b.tokens - 1 }) else (false, b)

def msUntilNextToken (b : TokenBucket) (ts : Rat) : Int × TokenBucket :=
  let b := b.refill ts
  if 1 ≤ b.tokens then (0, b)
  else
    let deficit := 1 - b.tokens
    ((deficit / b.ratePerSec * 1000).ceil, b)

/-- One turn of the loop in `acquire`: how long it sleeps, if it has not taken a token. -/
def turn (b : TokenBucket) (ts ts' : Rat) : Option Int × TokenBucket :=
  match b.tryRemove ts with
  | (true, b) => (none, b)
  | (false, b) => (some (b.msUntilNextToken ts').1, (b.msUntilNextToken ts').2)

end TokenBucket

/-! ## Many callers -/

/-- A bucket, the calls of `acquire` that sleep, the readings at which a token was granted, and
the last reading. -/
structure BucketWorld where
  bucket : TokenBucket
  sleepers : List Int
  granted : List Rat
  clock : Rat
  deriving DecidableEq

inductive BucketAction where
  | tryRemove (ts : Rat)
  | msUntilNextToken (ts : Rat)
  /-- A call of `acquire` begins. -/
  | acquire (ts ts' : Rat)
  /-- A call that sleeps goes on. -/
  | wake (i : Nat) (ts ts' : Rat)

def BucketAction.readings : BucketAction → List Rat
  | .tryRemove ts => [ts]
  | .msUntilNextToken ts => [ts]
  | .acquire ts ts' => [ts, ts']
  | .wake _ ts ts' => [ts, ts']

namespace BucketWorld

/-- A bucket that was made at a reading. -/
def start (b : TokenBucket) (now : Rat) : BucketWorld := ⟨b, [], [], now⟩

def take (w : BucketWorld) (ts : Rat) : BucketWorld :=
  { w with
    bucket := (w.bucket.tryRemove ts).2
    granted := if (w.bucket.tryRemove ts).1 = true then w.granted ++ [ts] else w.granted
    clock := ts }

def peek (w : BucketWorld) (ts : Rat) : BucketWorld :=
  { w with bucket := (w.bucket.msUntilNextToken ts).2, clock := ts }

/-- A turn of a call of `acquire`.  The clock is read again only if no token was taken. -/
def turn (w : BucketWorld) (ts ts' : Rat) : BucketWorld :=
  match (w.bucket.turn ts ts').1 with
  | none => w.take ts
  | some ms => { (w.take ts).peek ts' with sleepers := w.sleepers ++ [ms] }

def next (w : BucketWorld) : BucketAction → Option BucketWorld
  | .tryRemove ts => some (w.take ts)
  | .msUntilNextToken ts => some (w.peek ts)
  | .acquire ts ts' => some (w.turn ts ts')
  | .wake i ts ts' =>
    if i < w.sleepers.length then
      some ({ w with sleepers := w.sleepers.eraseIdx i }.turn ts ts')
    else none

/-- The clock does not go back. -/
def Forward (w : BucketWorld) (a : BucketAction) : Prop :=
  (w.clock :: a.readings).Pairwise (· ≤ ·)

instance (w : BucketWorld) (a : BucketAction) : Decidable (w.Forward a) :=
  inferInstanceAs (Decidable (List.Pairwise _ _))

def grantedBetween (w : BucketWorld) (t₁ t₂ : Rat) : Nat :=
  (w.granted.filter fun t => t₁ ≤ t ∧ t ≤ t₂).length

end BucketWorld

/-! ## What a refill does -/

namespace TokenBucket

variable {b : TokenBucket} {ts ts' : Rat}

/-- A refill happens when the clock has passed the last one. -/
theorem refill_of_lt (h : b.lastRefill < ts) : b.refill ts =
    { b with
      tokens := min b.capacity (b.tokens + (ts - b.lastRefill) / 1000 * b.ratePerSec)
      lastRefill := ts } := by
  have hpos : ¬(ts - b.lastRefill) / 1000 ≤ 0 := by
    rw [not_le]
    exact div_pos (sub_pos.mpr h) (by norm_num)
  exact if_neg hpos

theorem refill_of_le (h : ts ≤ b.lastRefill) : b.refill ts = b := by
  have hneg : (ts - b.lastRefill) / 1000 ≤ 0 :=
    div_nonpos_of_nonpos_of_nonneg (sub_nonpos.mpr h) (by norm_num)
  exact if_pos hneg

@[simp] theorem refill_ratePerSec (b : TokenBucket) (ts : Rat) :
    (b.refill ts).ratePerSec = b.ratePerSec := by
  rw [refill]
  split <;> rfl

@[simp] theorem refill_capacity (b : TokenBucket) (ts : Rat) :
    (b.refill ts).capacity = b.capacity := by
  rw [refill]
  split <;> rfl

theorem refill_lastRefill (b : TokenBucket) (ts : Rat) :
    (b.refill ts).lastRefill = max b.lastRefill ts := by
  rcases le_or_gt ts b.lastRefill with hle | hlt
  · rw [refill_of_le hle, max_eq_left hle]
  · rw [refill_of_lt hlt, max_eq_right hlt.le]

/-- A token is taken, or the bucket is only refilled. -/
theorem tryRemove_cases (b : TokenBucket) (ts : Rat) :
    (1 ≤ (b.refill ts).tokens ∧ b.tryRemove ts =
      (true, { b.refill ts with tokens := (b.refill ts).tokens - 1 })) ∨
    ((b.refill ts).tokens < 1 ∧ b.tryRemove ts = (false, b.refill ts)) := by
  rcases le_or_gt 1 (b.refill ts).tokens with hone | hnone
  · exact Or.inl ⟨hone, if_pos hone⟩
  · exact Or.inr ⟨hnone, if_neg (not_le.mpr hnone)⟩

@[simp] theorem msUntilNextToken_snd (b : TokenBucket) (ts : Rat) :
    (b.msUntilNextToken ts).2 = b.refill ts := by
  rw [msUntilNextToken]
  split <;> rfl

/-- What holds of a bucket at any time, whatever the clock shows. -/
structure Level (r c : Rat) (b : TokenBucket) : Prop where
  ratePerSec : b.ratePerSec = r
  capacity : b.capacity = c
  nonneg : 0 ≤ b.tokens
  le : b.tokens ≤ c

variable {r c : Rat}

theorem Level.refill (h : Level r c b) (hrate : 0 < r) (ts : Rat) :
    Level r c (b.refill ts) := by
  rcases le_or_gt ts b.lastRefill with hle | hlt
  · rw [refill_of_le hle]
    exact h
  · rw [refill_of_lt hlt]
    refine ⟨h.ratePerSec, h.capacity, ?_, ?_⟩
    · have hgain : 0 ≤ (ts - b.lastRefill) / 1000 * b.ratePerSec := by
        rw [h.ratePerSec]
        exact mul_nonneg (div_nonneg (sub_nonneg.mpr hlt.le) (by norm_num)) hrate.le
      have htokens := h.nonneg
      have hcapacity := le_trans h.nonneg h.le
      rw [h.capacity]
      exact le_min hcapacity (by linarith)
    · rw [h.capacity]
      exact min_le_left _ _

theorem Level.tryRemove (h : Level r c b) (hrate : 0 < r) (ts : Rat) :
    Level r c (b.tryRemove ts).2 := by
  have hlevel := h.refill hrate ts
  rcases b.tryRemove_cases ts with ⟨hone, htaken⟩ | ⟨-, hnone⟩
  · rw [htaken]
    have hle := hlevel.le
    exact ⟨hlevel.ratePerSec, hlevel.capacity, by linarith, by linarith⟩
  · rw [hnone]
    exact hlevel

/-- What a monotone clock adds: how many of the tokens granted between `t₁` and `t₂` the bucket
can have paid for. -/
structure Paced (r c t₁ t₂ : Rat) (n : Nat) (b : TokenBucket) : Prop where
  early : b.lastRefill < t₁ → n = 0
  during : t₁ ≤ b.lastRefill → b.lastRefill ≤ t₂ →
    n + b.tokens ≤ c + r * ((b.lastRefill - t₁) / 1000)
  late : t₂ < b.lastRefill → (n : Rat) ≤ c + r * ((t₂ - t₁) / 1000)

variable {t₁ t₂ : Rat} {n : Nat}

theorem Paced.refill (h : Paced r c t₁ t₂ n b) (hlevel : Level r c b) (hrate : 0 < r)
    (ht : t₁ ≤ t₂) (hts : b.lastRefill ≤ ts) : Paced r c t₁ t₂ n (b.refill ts) := by
  rcases eq_or_lt_of_le hts with rfl | hlt
  · rw [refill_of_le le_rfl]
    exact h
  · have hnonneg := hlevel.nonneg
    have hle := hlevel.le
    rw [refill_of_lt hlt]
    refine ⟨fun hearly => h.early (hlt.trans hearly), fun hfrom hto => ?_, fun hlate => ?_⟩
    · -- The bucket was below the capacity at `t₁`, or its level counts all that came since.
      rcases lt_or_ge b.lastRefill t₁ with hearly | hduring
      · rw [h.early hearly, hlevel.capacity, Nat.cast_zero, zero_add]
        have hgain : 0 ≤ r * ((ts - t₁) / 1000) :=
          mul_nonneg hrate.le (div_nonneg (sub_nonneg.mpr hfrom) (by norm_num))
        exact le_trans (min_le_left _ _) (by linarith)
      · have hold := h.during hduring (hlt.le.trans hto)
        have hgain : min b.capacity (b.tokens + (ts - b.lastRefill) / 1000 * b.ratePerSec) ≤
            b.tokens + (ts - b.lastRefill) / 1000 * b.ratePerSec := min_le_right _ _
        rw [hlevel.ratePerSec] at hgain
        rw [hlevel.ratePerSec]
        show (n : Rat) + min b.capacity (b.tokens + (ts - b.lastRefill) / 1000 * r) ≤
          c + r * ((ts - t₁) / 1000)
        linarith
    · rcases lt_or_ge b.lastRefill t₁ with hearly | hduring
      · rw [h.early hearly, Nat.cast_zero]
        have hgain : 0 ≤ r * ((t₂ - t₁) / 1000) :=
          mul_nonneg hrate.le (div_nonneg (sub_nonneg.mpr ht) (by norm_num))
        linarith
      · rcases lt_or_ge t₂ b.lastRefill with hafter | hbefore
        · exact h.late hafter
        · have hold := h.during hduring hbefore
          have hgain : r * ((b.lastRefill - t₁) / 1000) ≤ r * ((t₂ - t₁) / 1000) := by
            refine mul_le_mul_of_nonneg_left ?_ hrate.le
            linarith
          linarith

/-- A token is taken at the reading of the last refill. -/
theorem Paced.take (h : Paced r c t₁ t₂ n b) :
    Paced r c t₁ t₂ (n + if t₁ ≤ b.lastRefill ∧ b.lastRefill ≤ t₂ then 1 else 0)
      { b with tokens := b.tokens - 1 } := by
  refine ⟨fun hearly => ?_, fun hfrom hto => ?_, fun hlate => ?_⟩
  · rw [if_neg fun hin => absurd hin.1 (not_le.mpr hearly), h.early hearly]
  · have hold := h.during hfrom hto
    rw [if_pos ⟨hfrom, hto⟩, Nat.cast_add, Nat.cast_one]
    show (n : Rat) + 1 + (b.tokens - 1) ≤ c + r * ((b.lastRefill - t₁) / 1000)
    linarith
  · rw [if_neg fun hin => absurd hin.2 (not_le.mpr hlate), Nat.add_zero]
    exact h.late hlate

/-- In the end the tokens left do not count. -/
theorem Paced.bound (h : Paced r c t₁ t₂ n b) (hlevel : Level r c b) (hrate : 0 < r)
    (ht : t₁ ≤ t₂) : (n : Rat) ≤ c + r * ((t₂ - t₁) / 1000) := by
  have hnonneg := hlevel.nonneg
  have hle := hlevel.le
  have hgain : 0 ≤ r * ((t₂ - t₁) / 1000) :=
    mul_nonneg hrate.le (div_nonneg (sub_nonneg.mpr ht) (by norm_num))
  rcases lt_or_ge b.lastRefill t₁ with hearly | hduring
  · rw [h.early hearly, Nat.cast_zero]
    linarith
  · rcases lt_or_ge t₂ b.lastRefill with hafter | hbefore
    · exact h.late hafter
    · have hold := h.during hduring hbefore
      have hmore : r * ((b.lastRefill - t₁) / 1000) ≤ r * ((t₂ - t₁) / 1000) := by
        refine mul_le_mul_of_nonneg_left ?_ hrate.le
        linarith
      linarith

end TokenBucket

/-! ## What a run keeps -/

namespace BucketWorld

variable {w w' : BucketWorld} {a : BucketAction} {ls : List BucketAction} {r c t₁ t₂ : Rat}

/-- What every call keeps that takes a token or looks at the level, every step keeps. -/
theorem next_induct {I : BucketWorld → Prop} {C : BucketWorld → List Rat → Prop}
    (htake : ∀ w ts rest, I w → C w (ts :: rest) → I (w.take ts) ∧ C (w.take ts) rest)
    (hpeek : ∀ w ts rest, I w → C w (ts :: rest) → I (w.peek ts))
    (hsleepers : ∀ (w : BucketWorld) (sleepers : List Int), I w → I { w with sleepers })
    (hC : ∀ (w : BucketWorld) (sleepers : List Int) ts, C w ts → C { w with sleepers } ts)
    (hw : I w) (hreadings : C w a.readings) (h : w.next a = some w') : I w' := by
  have hturn : ∀ (v : BucketWorld) ts ts', I v → C v [ts, ts'] → I (v.turn ts ts') := by
    intro v ts ts' hv hread
    obtain ⟨htaken, hrest⟩ := htake v ts [ts'] hv hread
    rw [BucketWorld.turn]
    split
    · exact htaken
    · exact hsleepers _ _ (hpeek _ _ _ htaken hrest)
  cases a with
  | tryRemove ts =>
    obtain rfl := Option.some.inj h
    exact (htake w ts [] hw hreadings).1
  | msUntilNextToken ts =>
    obtain rfl := Option.some.inj h
    exact hpeek w ts [] hw hreadings
  | acquire ts ts' =>
    obtain rfl := Option.some.inj h
    exact hturn w ts ts' hw hreadings
  | wake i ts ts' =>
    rw [next] at h
    split at h
    · obtain rfl := Option.some.inj h
      exact hturn _ ts ts' (hsleepers w _ hw) (hC w _ _ hreadings)
    · cases h

theorem level_take (h : w.bucket.Level r c) (hrate : 0 < r) (ts : Rat) :
    (w.take ts).bucket.Level r c := h.tryRemove hrate ts

theorem level_peek (h : w.bucket.Level r c) (hrate : 0 < r) (ts : Rat) :
    (w.peek ts).bucket.Level r c := by
  have hlevel := h.refill hrate ts
  rwa [← TokenBucket.msUntilNextToken_snd] at hlevel

theorem level_run {b : TokenBucket} {now : Rat} (hrate : 0 < r) (hb : b.Level r c)
    (h : Run (StepOf next) (start b now) ls w) : w.bucket.Level r c := by
  refine h.invariant (I := fun w => w.bucket.Level r c) (fun x a y hx hxy => ?_) hb
  refine next_induct (I := fun w => w.bucket.Level r c) (C := fun _ _ => True) ?_ ?_ ?_ ?_ hx
    trivial hxy
  · exact fun _ ts _ hv _ => ⟨level_take hv hrate ts, trivial⟩
  · exact fun _ ts _ hv _ => level_peek hv hrate ts
  · exact fun _ _ hv => hv
  · exact fun _ _ _ _ => trivial

/-- Along a clock that does not go back. -/
structure PacedWorld (r c t₁ t₂ : Rat) (w : BucketWorld) : Prop where
  level : w.bucket.Level r c
  clock : w.clock = w.bucket.lastRefill
  paced : w.bucket.Paced r c t₁ t₂ (w.grantedBetween t₁ t₂)

theorem PacedWorld.take (h : PacedWorld r c t₁ t₂ w) (hrate : 0 < r) (ht : t₁ ≤ t₂) {ts : Rat}
    (hts : w.clock ≤ ts) : PacedWorld r c t₁ t₂ (w.take ts) := by
  have hle : w.bucket.lastRefill ≤ ts := h.clock ▸ hts
  have hlast : (w.bucket.refill ts).lastRefill = ts := by
    rw [TokenBucket.refill_lastRefill, max_eq_right hle]
  have hpaced := h.paced.refill h.level hrate ht hle
  rcases w.bucket.tryRemove_cases ts with ⟨-, htaken⟩ | ⟨-, hnone⟩
  · refine ⟨level_take h.level hrate ts, ?_, ?_⟩
    · show ts = (w.bucket.tryRemove ts).2.lastRefill
      rw [htaken]
      exact hlast.symm
    · have hcount : (w.take ts).grantedBetween t₁ t₂ = w.grantedBetween t₁ t₂ +
          if t₁ ≤ (w.bucket.refill ts).lastRefill ∧ (w.bucket.refill ts).lastRefill ≤ t₂ then 1
          else 0 := by
        rw [hlast, grantedBetween, grantedBetween, BucketWorld.take, htaken]
        simp only [if_true, List.filter_append, List.length_append]
        congr 1
        by_cases hin : t₁ ≤ ts ∧ ts ≤ t₂ <;> simp [hin]
      rw [hcount]
      show TokenBucket.Paced r c t₁ t₂ _ (w.bucket.tryRemove ts).2
      rw [htaken]
      exact hpaced.take
  · refine ⟨level_take h.level hrate ts, ?_, ?_⟩
    · show ts = (w.bucket.tryRemove ts).2.lastRefill
      rw [hnone]
      exact hlast.symm
    · have hcount : (w.take ts).grantedBetween t₁ t₂ = w.grantedBetween t₁ t₂ := by
        rw [grantedBetween, grantedBetween, BucketWorld.take, hnone]
        rfl
      rw [hcount]
      show TokenBucket.Paced r c t₁ t₂ _ (w.bucket.tryRemove ts).2
      rw [hnone]
      exact hpaced

theorem PacedWorld.peek (h : PacedWorld r c t₁ t₂ w) (hrate : 0 < r) (ht : t₁ ≤ t₂) {ts : Rat}
    (hts : w.clock ≤ ts) : PacedWorld r c t₁ t₂ (w.peek ts) := by
  have hle : w.bucket.lastRefill ≤ ts := h.clock ▸ hts
  refine ⟨level_peek h.level hrate ts, ?_, ?_⟩
  · show ts = (w.bucket.msUntilNextToken ts).2.lastRefill
    rw [TokenBucket.msUntilNextToken_snd, TokenBucket.refill_lastRefill, max_eq_right hle]
  · show TokenBucket.Paced r c t₁ t₂ _ (w.bucket.msUntilNextToken ts).2
    rw [TokenBucket.msUntilNextToken_snd]
    exact h.paced.refill h.level hrate ht hle

theorem PacedWorld.next (h : PacedWorld r c t₁ t₂ w) (hrate : 0 < r) (ht : t₁ ≤ t₂)
    (hforward : w.Forward a) (hnext : w.next a = some w') : PacedWorld r c t₁ t₂ w' := by
  refine next_induct (C := fun w ts => (w.clock :: ts).Pairwise (· ≤ ·)) ?_ ?_ ?_ ?_ h hforward
    hnext
  · intro v ts rest hv hread
    have hts : v.clock ≤ ts := (List.pairwise_cons.mp hread).1 ts List.mem_cons_self
    exact ⟨hv.take hrate ht hts, (List.pairwise_cons.mp hread).2⟩
  · intro v ts rest hv hread
    exact hv.peek hrate ht ((List.pairwise_cons.mp hread).1 ts List.mem_cons_self)
  · intro v sleepers hv
    exact ⟨hv.level, hv.clock, hv.paced⟩
  · intro v sleepers ts hread
    exact hread

end BucketWorld

/-! ## A call of `acquire` alone -/

namespace TokenBucket

variable {b : TokenBucket} {ts ts' r c : Rat} {a a' : Nat → Rat}

/-- The bucket before each turn of the loop, where the `k`-th turn reads the clock at `a k` and,
to find out how long to sleep, at `a' k`. -/
def turns (b : TokenBucket) (a a' : Nat → Rat) : Nat → TokenBucket
  | 0 => b
  | k + 1 => ((turns b a a' k).turn (a k) (a' k)).2

/-- How long the `k`-th turn has to sleep. -/
def wait (b : TokenBucket) (a a' : Nat → Rat) (k : Nat) : Option Int :=
  ((b.turns a a' k).turn (a k) (a' k)).1

/-- Every sleep is as long as was asked for, and the clock goes on. -/
structure Sleeps (b : TokenBucket) (a a' : Nat → Rat) : Prop where
  le : ∀ k, a k ≤ a' k
  slept : ∀ k ms, b.wait a a' k = some ms → a' k + ms ≤ a (k + 1)

/-- A call returns when one of its turns takes a token. -/
def Returns (b : TokenBucket) (a a' : Nat → Rat) : Prop := ∃ k, b.wait a a' k = none

/-- A turn takes a token, or it refills the bucket twice and leaves it with less than a token
or no time to sleep. -/
theorem turn_cases (b : TokenBucket) (ts ts' : Rat) :
    (1 ≤ (b.refill ts).tokens ∧ (b.turn ts ts').1 = none) ∨
    ((b.refill ts).tokens < 1 ∧ 1 ≤ ((b.refill ts).refill ts').tokens ∧
      b.turn ts ts' = (some 0, (b.refill ts).refill ts')) ∨
    ((b.refill ts).tokens < 1 ∧ ((b.refill ts).refill ts').tokens < 1 ∧
      b.turn ts ts' = (some (((1 - ((b.refill ts).refill ts').tokens) / b.ratePerSec * 1000).ceil),
        (b.refill ts).refill ts')) := by
  rcases b.tryRemove_cases ts with ⟨hone, htaken⟩ | ⟨hnone, hrefilled⟩
  · exact Or.inl ⟨hone, by rw [turn, htaken]⟩
  · refine Or.inr ?_
    rcases le_or_gt 1 ((b.refill ts).refill ts').tokens with hlater | hstill
    · refine Or.inl ⟨hnone, hlater, ?_⟩
      rw [turn, hrefilled]
      show (some ((b.refill ts).msUntilNextToken ts').1, ((b.refill ts).msUntilNextToken ts').2) = _
      rw [msUntilNextToken, if_pos hlater]
    · refine Or.inr ⟨hnone, hstill, ?_⟩
      rw [turn, hrefilled]
      show (some ((b.refill ts).msUntilNextToken ts').1, ((b.refill ts).msUntilNextToken ts').2) = _
      rw [msUntilNextToken, if_neg (not_le.mpr hstill), refill_ratePerSec, refill_ratePerSec]

theorem Level.turns (h : Level r c b) (hrate : 0 < r) (k : Nat) : Level r c (b.turns a a' k) := by
  induction k with
  | zero => exact h
  | succ k ih =>
    have htwice := (ih.refill hrate (a k)).refill hrate (a' k)
    rw [TokenBucket.turns]
    rcases (b.turns a a' k).turn_cases (a k) (a' k) with ⟨-, htaken⟩ | ⟨-, -, heq⟩ | ⟨-, -, heq⟩
    · have hremoved := ih.tryRemove hrate (a k)
      rw [turn] at htaken ⊢
      cases hcase : (b.turns a a' k).tryRemove (a k) with
      | mk taken rest =>
        rw [hcase] at hremoved htaken
        cases taken with
        | true => exact hremoved
        | false => cases htaken
    · rw [heq]
      exact htwice
    · rw [heq]
      exact htwice

/-- With room for a token, a sleep of the time that was asked for is long enough: the bucket
had to wait `ms` milliseconds since its last refill. -/
theorem one_le_refill (h : Level r c b) (hrate : 0 < r) (hroom : 1 ≤ c) (ms : Rat)
    (hms : (1 - b.tokens) / r * 1000 ≤ ms) (hts : b.lastRefill + ms ≤ ts)
    (hbelow : b.tokens < 1) : 1 ≤ (b.refill ts).tokens := by
  have hpos : 0 < (1 - b.tokens) / r * 1000 :=
    mul_pos (div_pos (sub_pos.mpr hbelow) hrate) (by norm_num)
  have hlt : b.lastRefill < ts := by linarith
  have hgain : 1 - b.tokens ≤ (ts - b.lastRefill) / 1000 * r := by
    have hsec : (1 - b.tokens) / r ≤ (ts - b.lastRefill) / 1000 := by
      rw [le_div_iff₀ (by norm_num)]
      linarith
    exact (div_le_iff₀ hrate).mp hsec
  rw [refill_of_lt hlt]
  show 1 ≤ min b.capacity (b.tokens + (ts - b.lastRefill) / 1000 * b.ratePerSec)
  rw [h.capacity, h.ratePerSec]
  exact le_min hroom (by linarith)

/-- A refill takes nothing away. -/
theorem one_le_refill_of_one_le (h : Level r c b) (hrate : 0 < r) (hone : 1 ≤ b.tokens)
    (ts : Rat) : 1 ≤ (b.refill ts).tokens := by
  rcases le_or_gt ts b.lastRefill with hle | hlt
  · rw [refill_of_le hle]
    exact hone
  · have hgain : 0 ≤ (ts - b.lastRefill) / 1000 * b.ratePerSec := by
      rw [h.ratePerSec]
      exact mul_nonneg (div_nonneg (sub_nonneg.mpr hlt.le) (by norm_num)) hrate.le
    have hle := h.le
    rw [refill_of_lt hlt]
    show 1 ≤ min b.capacity (b.tokens + (ts - b.lastRefill) / 1000 * b.ratePerSec)
    rw [h.capacity]
    exact le_min (by linarith) (by linarith)

theorem wait_eq_none_of_one_le {k : Nat} (h : 1 ≤ ((b.turns a a' k).refill (a k)).tokens) :
    b.wait a a' k = none := by
  rcases (b.turns a a' k).turn_cases (a k) (a' k) with ⟨-, hnone⟩ | ⟨hlt, -⟩ | ⟨hlt, -⟩
  · exact hnone
  · exact absurd h (not_le.mpr hlt)
  · exact absurd h (not_le.mpr hlt)

/-- A turn that follows one whose clock had reached the last refill takes a token. -/
theorem wait_succ_eq_none (h : Level r c b) (hrate : 0 < r) (hroom : 1 ≤ c)
    (hsleeps : Sleeps b a a') {k : Nat} {ms : Int} (hwait : b.wait a a' k = some ms)
    (hreached : (b.turns a a' k).lastRefill ≤ a' k) : b.wait a a' (k + 1) = none := by
  have hslept := hsleeps.slept k ms hwait
  have hlevel : Level r c (b.turns a a' (k + 1)) := h.turns hrate (k + 1)
  apply wait_eq_none_of_one_le
  rw [wait] at hwait
  rcases (b.turns a a' k).turn_cases (a k) (a' k) with ⟨-, hnone⟩ | ⟨-, hone, heq⟩ | ⟨-, hlt, heq⟩
  · rw [hnone] at hwait
    cases hwait
  · refine one_le_refill_of_one_le hlevel hrate ?_ _
    rw [turns, heq]
    exact hone
  · have hnext : b.turns a a' (k + 1) =
        ((b.turns a a' k).refill (a k)).refill (a' k) := by rw [turns, heq]
    have hlast : (b.turns a a' (k + 1)).lastRefill = a' k := by
      rw [hnext, refill_lastRefill, refill_lastRefill]
      exact max_eq_right (max_le hreached (hsleeps.le k))
    rw [heq] at hwait
    have hms := Option.some.inj hwait
    rw [← hnext, (h.turns hrate k).ratePerSec] at hms
    refine one_le_refill hlevel hrate hroom ms ?_ ?_ (hnext ▸ hlt)
    · rw [← hms]
      exact Rat.le_ceil
    · rw [hlast]
      exact hslept

/-- As long as the clock stays behind the last refill, a turn changes nothing and sleeps. -/
theorem one_le_wait (hrate : 0 < b.ratePerSec) (hle : ts ≤ ts') (hbehind : ts' < b.lastRefill)
    {ms : Int} (hwait : (b.turn ts ts').1 = some ms) : 1 ≤ ms ∧ (b.turn ts ts').2 = b := by
  have hfirst : b.refill ts = b := refill_of_le (hle.trans hbehind.le)
  have hsecond : (b.refill ts).refill ts' = b := by rw [hfirst, refill_of_le hbehind.le]
  rcases b.turn_cases ts ts' with ⟨-, hnone⟩ | ⟨hlt, hone, -⟩ | ⟨-, hlt, heq⟩
  · rw [hnone] at hwait
    cases hwait
  · rw [hsecond] at hone
    rw [hfirst] at hlt
    exact absurd hone (not_le.mpr hlt)
  · rw [heq, hsecond] at hwait ⊢
    rw [hsecond] at hlt
    refine ⟨?_, rfl⟩
    rw [← Option.some.inj hwait]
    have hpos : 0 < (1 - b.tokens) / b.ratePerSec * 1000 :=
      mul_pos (div_pos (sub_pos.mpr hlt) hrate) (by norm_num)
    have hceil : (0 : Int) < ((1 - b.tokens) / b.ratePerSec * 1000).ceil := by
      rw [Rat.lt_ceil_iff]
      exact_mod_cast hpos
    omega

/-- A bucket with room for a token lets a lone caller through. -/
theorem returns_of_one_le (h : Level r c b) (hrate : 0 < r) (hroom : 1 ≤ c)
    (hsleeps : Sleeps b a a') : Returns b a a' := by
  by_contra hnever
  have hwaits : ∀ k, ∃ ms, b.wait a a' k = some ms := fun k =>
    Option.ne_none_iff_exists'.mp fun hnone => hnever ⟨k, hnone⟩
  have hbehind : ∀ k, a' k < (b.turns a a' k).lastRefill := by
    intro k
    obtain ⟨ms, hms⟩ := hwaits k
    by_contra hreached
    exact hnever ⟨k + 1, wait_succ_eq_none h hrate hroom hsleeps hms (not_lt.mp hreached)⟩
  -- The clock advances by a millisecond in each turn, and the bucket stays as it is.
  have hstays : ∀ k : Nat, b.turns a a' k = b ∧ a' 0 + (k : Rat) ≤ a' k := by
    intro k
    induction k with
    | zero => exact ⟨rfl, by simp⟩
    | succ k ih =>
      obtain ⟨ms, hms⟩ := hwaits k
      have hpos : 0 < (b.turns a a' k).ratePerSec := by
        rw [(h.turns hrate k).ratePerSec]
        exact hrate
      obtain ⟨hone, hsame⟩ := one_le_wait hpos (hsleeps.le k) (hbehind k) hms
      have hslept := hsleeps.slept k ms hms
      have hlater := hsleeps.le (k + 1)
      have hms' : (1 : Rat) ≤ ms := by exact_mod_cast hone
      refine ⟨by rw [turns, hsame, ih.1], ?_⟩
      have hearlier := ih.2
      push_cast
      linarith
  obtain ⟨k, hk⟩ := exists_nat_gt (b.lastRefill - a' 0)
  have hclock := (hstays k).2
  have hlast := hbehind k
  rw [(hstays k).1] at hlast
  linarith

/-! ### Too small a bucket -/

/-- The bucket and the clock of a caller that sleeps exactly as long as it was told. -/
def punctual (b : TokenBucket) (now : Rat) : Nat → TokenBucket × Rat
  | 0 => (b, now)
  | k + 1 =>
    let t := (punctual b now k).1.turn (punctual b now k).2 (punctual b now k).2
    (t.2, (punctual b now k).2 + (t.1.getD 0 : Int))

theorem turns_punctual (b : TokenBucket) (now : Rat) (k : Nat) :
    b.turns (fun k => (punctual b now k).2) (fun k => (punctual b now k).2) k =
      (punctual b now k).1 := by
  induction k with
  | zero => rfl
  | succ k ih => rw [turns, ih, punctual]

theorem sleeps_punctual (b : TokenBucket) (now : Rat) :
    Sleeps b (fun k => (punctual b now k).2) fun k => (punctual b now k).2 := by
  refine ⟨fun _ => le_rfl, fun k ms hwait => ?_⟩
  rw [wait, turns_punctual] at hwait
  show _ ≤ (punctual b now k).2 +
    (((punctual b now k).1.turn (punctual b now k).2 (punctual b now k).2).1.getD 0 : Int)
  rw [hwait]
  exact le_rfl

/-- A bucket that does not hold a whole token never grants one. -/
theorem not_returns_of_lt (h : Level r c b) (hrate : 0 < r) (hsmall : c < 1) :
    ¬Returns b a a' := by
  rintro ⟨k, hk⟩
  have hle : ((b.turns a a' k).refill (a k)).tokens < 1 :=
    lt_of_le_of_lt ((h.turns hrate k).refill hrate (a k)).le hsmall
  rw [wait] at hk
  rcases (b.turns a a' k).turn_cases (a k) (a' k) with ⟨hone, -⟩ | ⟨-, -, heq⟩ | ⟨-, -, heq⟩
  · exact absurd hone (not_le.mpr hle)
  · rw [heq] at hk
    cases hk
  · rw [heq] at hk
    cases hk

end TokenBucket

/-! ## The bucket as a whole -/

/-- What a bucket that was made at a reading should do. -/
structure TokenBucket.Sound (b : TokenBucket) (now : Rat) : Prop where
  level : ∀ ls w, Run (StepOf BucketWorld.next) (.start b now) ls w →
    0 ≤ w.bucket.tokens ∧ w.bucket.tokens ≤ b.capacity
  paced : ∀ ls w, Run (Run.Guarded (StepOf BucketWorld.next) BucketWorld.Forward)
    (.start b now) ls w → ∀ t₁ t₂, t₁ ≤ t₂ →
      (w.grantedBetween t₁ t₂ : Rat) ≤ b.capacity + b.ratePerSec * (t₂ - t₁) / 1000
  returns : ∀ ls w, Run (StepOf BucketWorld.next) (.start b now) ls w →
    ∀ a a', w.bucket.Sleeps a a' → w.bucket.Returns a a'

section

variable {opts : TokenBucketOptions} {now : Rat} {b : TokenBucket}

theorem TokenBucket.new_eq_some (h : TokenBucket.new opts now = some b) :
    0 < opts.ratePerSec ∧ b = ⟨opts.ratePerSec, opts.capacity, opts.capacity, now⟩ := by
  rw [TokenBucket.new] at h
  split at h
  · cases h
  · rename_i hrate
    exact ⟨not_le.mp hrate, (Option.some.inj h).symm⟩

theorem TokenBucket.level_new (now : Rat) (hcapacity : 0 ≤ opts.capacity) :
    TokenBucket.Level opts.ratePerSec opts.capacity
      ⟨opts.ratePerSec, opts.capacity, opts.capacity, now⟩ := ⟨rfl, rfl, hcapacity, le_rfl⟩

theorem TokenBucket.sound_of_one_le (hrate : 0 < opts.ratePerSec) (hroom : 1 ≤ opts.capacity) :
    TokenBucket.Sound ⟨opts.ratePerSec, opts.capacity, opts.capacity, now⟩ now := by
  have hnonneg : 0 ≤ opts.capacity := le_trans zero_le_one hroom
  have hlevel := TokenBucket.level_new now hnonneg
  refine ⟨fun ls w h => ?_, fun ls w h t₁ t₂ ht => ?_, fun ls w h a a' hsleeps => ?_⟩
  · have hw := BucketWorld.level_run hrate hlevel h
    exact ⟨hw.nonneg, hw.le⟩
  · have hstart : BucketWorld.PacedWorld opts.ratePerSec opts.capacity t₁ t₂
        (.start ⟨opts.ratePerSec, opts.capacity, opts.capacity, now⟩ now) := by
      refine ⟨hlevel, rfl, fun _ => rfl, fun hfrom _ => ?_, fun _ => ?_⟩
      · have hgain : 0 ≤ opts.ratePerSec * ((now - t₁) / 1000) :=
          mul_nonneg hrate.le (div_nonneg (sub_nonneg.mpr hfrom) (by norm_num))
        show ((0 : Nat) : Rat) + opts.capacity ≤
          opts.capacity + opts.ratePerSec * ((now - t₁) / 1000)
        rw [Nat.cast_zero]
        linarith
      · have hgain : 0 ≤ opts.ratePerSec * ((t₂ - t₁) / 1000) :=
          mul_nonneg hrate.le (div_nonneg (sub_nonneg.mpr ht) (by norm_num))
        show ((0 : Nat) : Rat) ≤ _
        rw [Nat.cast_zero]
        linarith
    have hw := h.invariant (fun x a y hx hxy => hx.next hrate ht hxy.2 hxy.1) hstart
    have hbound := hw.paced.bound hw.level hrate ht
    rw [mul_div_assoc]
    exact hbound
  · exact TokenBucket.returns_of_one_le (BucketWorld.level_run hrate hlevel h) hrate hroom hsleeps

/-- A bucket below one token is below zero, or it keeps a lone caller waiting. -/
theorem TokenBucket.not_sound_of_lt (hrate : 0 < opts.ratePerSec) (hsmall : opts.capacity < 1) :
    ¬TokenBucket.Sound ⟨opts.ratePerSec, opts.capacity, opts.capacity, now⟩ now := by
  intro hsound
  have hnonneg : 0 ≤ opts.capacity := (hsound.level [] _ .nil).1
  exact TokenBucket.not_returns_of_lt (TokenBucket.level_new now hnonneg) hrate hsmall
    (hsound.returns [] _ .nil _ _ (TokenBucket.sleeps_punctual _ now))

/-- The bucket keeps its bounds, its pace and its promise to a lone caller just when it can hold
a whole token. -/
theorem tokenBucket_sound_iff (h : TokenBucket.new opts now = some b) :
    b.Sound now ↔ 1 ≤ opts.capacity := by
  obtain ⟨hrate, rfl⟩ := TokenBucket.new_eq_some h
  constructor
  · intro hsound
    by_contra hsmall
    exact TokenBucket.not_sound_of_lt hrate (not_le.mp hsmall) hsound
  · exact TokenBucket.sound_of_one_le hrate

end

/-- The bucket of the WebSocket connections, five frames a second. -/
theorem tokenBucket_sound_iff_five :
    TokenBucket.Sound ⟨5, 5, 5, 0⟩ 0 := by
  have hnew : TokenBucket.new ⟨5, none⟩ 0 = some ⟨5, 5, 5, 0⟩ := if_neg (by norm_num)
  have hroom : (1 : Rat) ≤ TokenBucketOptions.capacity ⟨5, none⟩ := by
    show (1 : Rat) ≤ 5
    norm_num
  exact (tokenBucket_sound_iff hnew).mpr hroom

/-- A call every two seconds, with the burst that is the default, never gets through. -/
theorem half_rate_never_acquires : ∃ b, TokenBucket.new ⟨1 / 2, none⟩ 0 = some b ∧
    b.capacity = 1 / 2 ∧ ¬b.Sound 0 := by
  refine ⟨⟨1 / 2, 1 / 2, 1 / 2, 0⟩, if_neg (by norm_num), rfl, ?_⟩
  have hrate : (0 : Rat) < TokenBucketOptions.ratePerSec ⟨1 / 2, none⟩ := by norm_num
  have hsmall : TokenBucketOptions.capacity ⟨1 / 2, none⟩ < 1 := by
    show (1 / 2 : Rat) < 1
    norm_num
  exact TokenBucket.not_sound_of_lt hrate hsmall

end Indexer
end Linkora
