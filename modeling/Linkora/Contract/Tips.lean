import Linkora.Contract.Posts

/-!
# Tips and rent

The two entry points that only pass a user's tokens on: a tip, split between the
treasury and the author, and the rent that extends the lifetime of a user's
entries.
-/

namespace Linkora
namespace Contract

def getFeeBps (s : State) : Nat := s.params.feeBps.getD 0

def getTipCooldownWindow (s : State) : Nat := s.params.tipCooldownWindow.getD 1

def getRentRateBps (s : State) : Nat := s.params.rentRateBps.getD 100

/-- A temporary entry is gone once its lifetime has run out. -/
def liveCooldown (env : Env) (t : Tips) (key : Nat × Address × Address) : Option TempEntry :=
  match t.tipCooldown.get key with
  | some e => if env.sequence ≤ e.liveUntil then some e else none
  | none => none

/-- Write the cooldown entry and extend its lifetime as `bump_temp` does: an entry
that has more than `LEDGER_THRESHOLD` ledgers left keeps the lifetime it has. -/
def touchCooldown (env : Env) (t : Tips) (key : Nat × Address × Address) : TempEntry :=
  let extended := env.sequence + LEDGER_BUMP
  match liveCooldown env t key with
  | some e =>
    { value := env.sequence
      liveUntil := if e.liveUntil - env.sequence ≤ LEDGER_THRESHOLD then extended
        else e.liveUntil }
  | none => { value := env.sequence, liveUntil := extended }

/-- Record a tip: the cooldown entry, and for a pair seen for the first time also
its place in the post's cooldown index. -/
def trackCooldown (env : Env) (t : Tips) (postId : Nat) (tipper token : Address) :
    Except Panic Tips := do
  let key := (postId, tipper, token)
  let touched := { t with tipCooldown := t.tipCooldown.set key (touchCooldown env t key) }
  if (liveCooldown env t key).isSome then return touched
  else
    let count := (t.cooldownsCount.get postId).getD 0
    let next ← u32 (count + 1)
    return { touched with
      cooldownsIdx := t.cooldownsIdx.set (postId, count) (tipper, token)
      cooldownsCount := t.cooldownsCount.set postId next }

def tipFee (amount : Int) (feeBps : Nat) : Except Panic Int := do
  let whole ← i128 (amount.tdiv 10000 * feeBps)
  let part ← i128 (amount.tmod 10000 * feeBps)
  i128 (whole + part.tdiv 10000)

/-- The treasury's share, when there is one. -/
def payTipFee {σ : Type} (host : Host σ) (s : State) (tokens : σ) (tipper token : Address)
    (feeAmount : Int) : Except Panic σ :=
  if 0 < feeAmount then do
    let treasury ← expect s.params.treasury "treasury not set"
    tokenCall (host.transfer tokens token tipper treasury feeAmount)
  else .ok tokens

def tip {σ : Type} (host : Host σ) (env : Env) (w : World σ) (tipper : Address) (postId : Nat)
    (token : Address) (amount : Int) : Except Panic (World σ) := do
  let s := w.store
  requireNotPaused s .tips
  requireAuth env tipper
  validateNonDefaultAddress "tipper" tipper
  validateNonDefaultAddress "token" token
  requireWithError (0 < postId) "post id must be positive"
  validateAmount "tip amount" amount
  let post ← expect (s.posts.post.get postId) s!"post not found: {postId}"
  requireWithError ((← isBlocked s post.author tipper) = false) "blocked"
  requireWithError ((← isBlocked s tipper post.author) = false) "blocked"
  requireWithError ((← isBlocked s tipper post.author) = false) "blocked"
  requireWithError
    (∀ e ∈ liveCooldown env s.tips (postId, tipper, token),
      getTipCooldownWindow s ≤ env.sequence - e.value)
    "tip cooldown not expired"
  let tips ← trackCooldown env s.tips postId tipper token
  let feeAmount ← tipFee amount (getFeeBps s)
  let authorAmount ← i128 (amount - feeAmount)
  let tipTotal ← i128 (post.tipTotal + authorAmount)
  let posts := { s.posts with post := s.posts.post.set postId { post with tipTotal } }
  let tokens ← payTipFee host s w.tokens tipper token feeAmount
  let tokens ← tokenCall (host.transfer tokens token tipper post.author authorAmount)
  return { store := { s with tips, posts }.publish (.tip tipper postId amount feeAmount), tokens }

/-! ## Rent -/

/-- `10 ^ decimals`, multiplied up with the overflow check of each factor. -/
def rentBase : Nat → Except Panic Int
  | 0 => .ok 1
  | decimals + 1 => do
    let base ← rentBase decimals
    if base * 10 ≤ I128_MAX then return base * 10
    else .error (.message "decimals overflow")

def ledgersToExtend (amount : Int) (rentRateBps decimals : Nat) : Except Panic Int := do
  let base ← rentBase decimals
  let divisor ← i128 (rentRateBps * base)
  let scaled ← i128 (amount * 10000)
  return scaled.tdiv divisor

/-- The lifetime `pay_rent` asks for: the extension is cast to `u32` and added to
`LEDGER_BUMP` with saturation. -/
def rentTargetTtl (ledgers : Int) : Nat :=
  min (LEDGER_BUMP + (ledgers % 2 ^ 32).toNat) U32_MAX

/-- The entries whose lifetime rent extends. -/
inductive UserKey where
  | profile
  | usernameIndex (username : Bytes)
  | authorPosts
  | blocks
  | followingCount
  | followersCount
  | followingIdx (seq : Nat)
  | followingPos (followee : Address)
  | followingEdge (followee : Address)
  | followersIdx (seq : Nat)
  | followersPos (follower : Address)
  | followersEdge (follower : Address)
  deriving DecidableEq

def presentKey (present : Bool) (key : UserKey) : List UserKey := if present then [key] else []

def indexKeys (ix : Index Address Address) (user : Address) (edge : Address → Bool)
    (idxKey : Nat → UserKey) (posKey edgeKey : Address → UserKey) : List UserKey :=
  (List.range (ix.size user)).flatMap fun seq =>
    match ix.idx.get (user, seq) with
    | some other =>
      idxKey seq :: presentKey (ix.pos.has (user, other)) (posKey other) ++
        presentKey (edge other) (edgeKey other)
    | none => []

def getUserKeys (s : State) (user : Address) : List UserKey :=
  (match s.profiles.profile.get user with
    | some profile =>
      .profile :: presentKey (s.profiles.usernameIndex.has profile.username)
        (.usernameIndex profile.username)
    | none => []) ++
  presentKey (s.posts.authorPosts.has user) .authorPosts ++
  presentKey (s.blocks.has user) .blocks ++
  presentKey (s.graph.following.count.has user) .followingCount ++
  presentKey (s.graph.followers.count.has user) .followersCount ++
  indexKeys s.graph.following user (fun other => s.graph.edge.has (user, other))
    .followingIdx .followingPos .followingEdge ++
  indexKeys s.graph.followers user (fun other => s.graph.edge.has (other, user))
    .followersIdx .followersPos .followersEdge

def getRentExpiry (env : Env) (s : State) (user : Address) : Except Panic Nat := do
  validateNonDefaultAddress "user" user
  requireWithError (s.profiles.profile.has user = true) "profile does not exist"
  return min (env.sequence + LEDGER_BUMP) U32_MAX

/-- Lifetimes of persistent entries are not part of the state, so what rent
changes here is who holds the tokens. -/
def payRent {σ : Type} (host : Host σ) (env : Env) (w : World σ) (user token : Address)
    (amount : Int) : Except Panic (World σ) := do
  let s := w.store
  requireAuth env user
  validateNonDefaultAddress "user" user
  validateNonDefaultAddress "token" token
  validateAmount "rent amount" amount
  requireWithError (0 < getRentRateBps s) "rent rate bps must be positive"
  let (decimals, tokens) ← tokenCall (host.decimals w.tokens token)
  let ledgers ← ledgersToExtend amount (getRentRateBps s) decimals
  requireWithError (0 < ledgers) "amount too small for rent rate"
  let treasury ← expect s.params.treasury "treasury not set"
  let tokens ← tokenCall (host.transfer tokens token user treasury amount)
  let extendedToLedger ← getRentExpiry env s user
  return { store := s.publish (.rentPaid user user token amount extendedToLedger), tokens }

def setRentRateBps (env : Env) (s : State) (admin : Address) (rate : Nat) :
    Except Panic State := do
  requireAuth env admin
  validateNonDefaultAddress "admin" admin
  requireRole s admin .admin
  validateU32Range "rate" rate 1 MAX_FEE_BPS
  return { s with params := { s.params with rentRateBps := some rate } }

def batchBumpUserGraph (env : Env) (s : State) (admin user : Address) : Except Panic Nat := do
  requireAuth env admin
  validateNonDefaultAddress "admin" admin
  requireRole s admin .admin
  validateNonDefaultAddress "user" user
  return min 50 (getUserKeys s user).length

/-! ## What a successful call says -/

/-- A fee of at most everything takes no more than the tip. -/
theorem tipFee_bounds {amount feeAmount : Int} {feeBps : Nat} (hpos : 0 < amount)
    (hbps : feeBps ≤ 10000) (h : tipFee amount feeBps = .ok feeAmount) :
    0 ≤ feeAmount ∧ feeAmount ≤ amount := by
  simp only [tipFee, Checked.bind_eq_ok, i128_eq_ok] at h
  obtain ⟨-, ⟨-, rfl⟩, -, ⟨-, rfl⟩, -, rfl⟩ := h
  have hq : 0 ≤ amount.tdiv 10000 := Int.tdiv_nonneg hpos.le (by decide)
  have hr : 0 ≤ amount.tmod 10000 := Int.tmod_nonneg 10000 hpos.le
  have hsum : 10000 * amount.tdiv 10000 + amount.tmod 10000 = amount :=
    Int.mul_tdiv_add_tmod amount 10000
  have hf : (0 : Int) ≤ feeBps := Int.natCast_nonneg feeBps
  have hf' : (feeBps : Int) ≤ 10000 := by exact_mod_cast hbps
  have hwhole : 0 ≤ amount.tdiv 10000 * feeBps := Int.mul_nonneg hq hf
  have hwhole' : amount.tdiv 10000 * feeBps ≤ amount.tdiv 10000 * 10000 :=
    Int.mul_le_mul_of_nonneg_left hf' hq
  have hpart : 0 ≤ amount.tmod 10000 * feeBps := Int.mul_nonneg hr hf
  have hpart' : amount.tmod 10000 * feeBps ≤ amount.tmod 10000 * 10000 :=
    Int.mul_le_mul_of_nonneg_left hf' hr
  rw [Int.tdiv_eq_ediv_of_nonneg hpart]
  constructor
  · omega
  · omega

theorem tip_ok {σ : Type} {host : Host σ} {env : Env} {w w' : World σ} {tipper : Address}
    {postId : Nat} {token : Address} {amount : Int}
    (h : tip host env w tipper postId token amount = .ok w') :
    env.auth tipper = true ∧ 0 < amount ∧
    ∃ post tips feeAmount tipTotal paid tokens,
      w.store.posts.post.get postId = some post ∧
      tipFee amount (getFeeBps w.store) = .ok feeAmount ∧
      tipTotal = post.tipTotal + (amount - feeAmount) ∧
      (paid = w.tokens ∨ ∃ treasury,
        host.transfer w.tokens token tipper treasury feeAmount = some paid) ∧
      host.transfer paid token tipper post.author (amount - feeAmount) = some tokens ∧
      w' = ⟨{ w.store with
        tips
        posts := { w.store.posts with
          post := w.store.posts.post.set postId { post with tipTotal } } }.publish
            (.tip tipper postId amount feeAmount), tokens⟩ := by
  simp only [tip, Checked.bind_eq_ok, Checked.pure_eq_ok, requireAuth_eq_ok, expect_eq_ok,
    validateAmount_eq_ok, requireWithError_eq_ok, tokenCall_eq_ok, exists_const] at h
  obtain ⟨-, -, hauth, -, -, -, -, -, ⟨hpos, -⟩, post, hpost, -, -, -, -, -, -, -, -, -, -, tips, -,
    feeAmount, hfee, authorAmount, hauthor, tipTotal, htotal, paid, hpaid, tokens, ht, rfl⟩ := h
  obtain ⟨-, rfl⟩ := i128_eq_ok.mp hauthor
  obtain ⟨-, rfl⟩ := i128_eq_ok.mp htotal
  refine ⟨hauth, hpos, post, tips, feeAmount, _, paid, tokens, hpost, hfee, rfl, ?_, ht, rfl⟩
  unfold payTipFee at hpaid
  split at hpaid
  · simp only [Checked.bind_eq_ok, expect_eq_ok, tokenCall_eq_ok] at hpaid
    obtain ⟨treasury, -, hpaid⟩ := hpaid
    exact Or.inr ⟨treasury, hpaid⟩
  · rw [Except.ok.injEq] at hpaid
    exact Or.inl hpaid.symm

theorem payRent_ok {σ : Type} {host : Host σ} {env : Env} {w w' : World σ} {user token : Address}
    {amount : Int} (h : payRent host env w user token amount = .ok w') :
    env.auth user = true ∧ 0 < amount ∧ ∃ decimals asked treasury tokens event,
      host.decimals w.tokens token = some (decimals, asked) ∧
      host.transfer asked token user treasury amount = some tokens ∧
      w' = ⟨w.store.publish event, tokens⟩ := by
  simp only [payRent, Checked.bind_eq_ok, Checked.pure_eq_ok, requireAuth_eq_ok, expect_eq_ok,
    validateAmount_eq_ok, requireWithError_eq_ok, tokenCall_eq_ok, exists_const] at h
  obtain ⟨hauth, -, -, -, -, ⟨hpos, -⟩, -, ⟨decimals, asked⟩, hdec, -, -, -, treasury, -, tokens,
    ht, -, -, rfl⟩ := h
  exact ⟨hauth, hpos, decimals, asked, treasury, tokens, _, hdec, ht, rfl⟩

theorem setRentRateBps_ok {env : Env} {s s' : State} {admin : Address} {rate : Nat}
    (h : setRentRateBps env s admin rate = .ok s') :
    1 ≤ rate ∧ rate ≤ MAX_FEE_BPS ∧
      s' = { s with params := { s.params with rentRateBps := some rate } } := by
  simp only [setRentRateBps, Checked.bind_eq_ok, Checked.pure_eq_ok, validateU32Range_eq_ok,
    exists_const] at h
  obtain ⟨-, -, -, -, -, -, ⟨hlo, hhi⟩, rfl⟩ := h
  exact ⟨hlo, hhi, rfl⟩

end Contract
end Linkora
