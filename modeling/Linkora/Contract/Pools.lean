import Linkora.Contract.Validation

/-!
# Community pools

Pools hold tokens in the contract's own account and release them against the
signatures of `threshold` of their admins.  The signer loop is the same in every
entry point that a pool guards, so it is one function here.
-/

namespace Linkora
namespace Contract

def POOL_WITHDRAW_FEE_BPS : Int := 0

def poolWithdrawReceivedAmount (requested : Int) : Except Panic Int := do
  let product ← i128 (requested * POOL_WITHDRAW_FEE_BPS)
  i128 (requested - product.tdiv 10000)

/-- Count the signers, then check each of them against the admins and for its
authorisation. -/
def requireSigners (env : Env) (pool : Pool) (signers : List Address) : Except Panic Unit := do
  requireWithError (pool.threshold ≤ signers.length) "insufficient signers"
  forM signers fun signer => do
    requireWithError (signer ∈ pool.admins) "unauthorized signer"
    requireAuth env signer

@[simp] theorem requireSigners_eq_ok {env : Env} {pool : Pool} {signers : List Address}
    {u : Unit} :
    requireSigners env pool signers = .ok u ↔ pool.threshold ≤ signers.length ∧
      ∀ a ∈ signers, a ∈ pool.admins ∧ env.auth a = true := by
  simp [requireSigners, Checked.forM_eq_ok]

def createPool (env : Env) (s : State) (admin : Address) (poolId : Symbol) (token : Address)
    (initialAdmins : List Address) (threshold : Nat) : Except Panic State := do
  requireNotPaused s .pools
  requireAuth env admin
  validateNonDefaultAddress "admin" admin
  validateNonDefaultAddress "token" token
  validateAddressList "initial_admins" initialAdmins
  requireRole s admin .admin
  requireWithError (s.pools.has poolId = false) "pool exists"
  requireWithError (0 < threshold ∧ threshold ≤ initialAdmins.length) "invalid threshold"
  let pool : Pool := { token, balance := 0, admins := initialAdmins, threshold }
  return { s with pools := s.pools.set poolId pool }.publish
    (.poolCreated poolId token initialAdmins threshold)

def poolDeposit {σ : Type} (host : Host σ) (env : Env) (w : World σ) (depositor : Address)
    (poolId : Symbol) (token : Address) (amount : Int) : Except Panic (World σ) := do
  let s := w.store
  requireNotPaused s .pools
  validateNonDefaultAddress "depositor" depositor
  validateNonDefaultAddress "token" token
  validateAmount "deposit amount" amount
  requireAuth env depositor
  let pool ← expect (s.pools.get poolId) "pool not found"
  requireWithError (pool.token = token) "wrong token for pool"
  let balance ← i128 (pool.balance + amount)
  let tokens ← tokenCall (host.transfer w.tokens token depositor host.self amount)
  return {
    store := { s with pools := s.pools.set poolId { pool with balance } }.publish
      (.poolDeposit depositor poolId amount)
    tokens }

def poolWithdraw {σ : Type} (host : Host σ) (env : Env) (w : World σ) (signers : List Address)
    (poolId : Symbol) (amount : Int) (recipient : Address) (minOutAmount : Option Int)
    (deadline : Option Nat) : Except Panic (World σ) := do
  let s := w.store
  requireNotPaused s .pools
  validateAddressList "signers" signers
  validateNonDefaultAddress "recipient" recipient
  validateAmount "withdraw amount" amount
  requireWithError (∀ d ∈ deadline, env.timestamp ≤ d) "deadline expired"
  let pool ← expect (s.pools.get poolId) "pool not found"
  requireSigners env pool signers
  requireWithError (amount ≤ pool.balance) "low balance"
  let received ← poolWithdrawReceivedAmount amount
  requireWithError (∀ minOut ∈ minOutAmount, minOut ≤ received) "slippage exceeded"
  let balance ← i128 (pool.balance - amount)
  let tokens ← tokenCall (host.transfer w.tokens pool.token host.self recipient amount)
  return {
    store := { s with pools := s.pools.set poolId { pool with balance } }.publish
      (.poolWithdraw recipient poolId amount)
    tokens }

def addPoolAdmin (env : Env) (s : State) (signers : List Address) (poolId : Symbol)
    (newAdmin : Address) : Except Panic State := do
  requireNotPaused s .pools
  validateAddressList "signers" signers
  validateNonDefaultAddress "new_admin" newAdmin
  let pool ← expect (s.pools.get poolId) "pool not found"
  requireSigners env pool signers
  requireWithError (newAdmin ∉ pool.admins) "admin already exists"
  let pool := { pool with admins := pool.admins ++ [newAdmin] }
  return { s with pools := s.pools.set poolId pool }.publish (.poolAdminAdded poolId newAdmin)

def removePoolAdmin (env : Env) (s : State) (signers : List Address) (poolId : Symbol)
    (admin : Address) : Except Panic State := do
  requireNotPaused s .pools
  validateAddressList "signers" signers
  validateNonDefaultAddress "admin" admin
  let pool ← expect (s.pools.get poolId) "pool not found"
  requireSigners env pool signers
  let newAdmins := pool.admins.filter (· ≠ admin)
  requireWithError (newAdmins.length < pool.admins.length) "admin not found"
  requireWithError (pool.threshold ≤ newAdmins.length) "threshold unreachable after removal"
  let pool := { pool with admins := newAdmins }
  return { s with pools := s.pools.set poolId pool }.publish (.poolAdminRemoved poolId admin)

def updatePoolThreshold (env : Env) (s : State) (signers : List Address) (poolId : Symbol)
    (threshold : Nat) : Except Panic State := do
  requireNotPaused s .pools
  validateAddressList "signers" signers
  validateU32Range "threshold" threshold 1 MAX_QUORUM
  let pool ← expect (s.pools.get poolId) "pool not found"
  requireSigners env pool signers
  requireWithError (threshold ≤ pool.admins.length) "threshold cannot exceed admin count"
  return { s with pools := s.pools.set poolId { pool with threshold } }.publish
    (.poolThresholdUpdated poolId pool.threshold threshold)

/-! ## What a successful call says -/

theorem createPool_ok {env : Env} {s s' : State} {admin : Address} {poolId : Symbol}
    {token : Address} {initialAdmins : List Address} {threshold : Nat}
    (h : createPool env s admin poolId token initialAdmins threshold = .ok s') :
    s.pools.get poolId = none ∧ 0 < threshold ∧ threshold ≤ initialAdmins.length ∧
      s' = { s with pools := s.pools.set poolId ⟨token, 0, initialAdmins, threshold⟩ }.publish
        (.poolCreated poolId token initialAdmins threshold) := by
  simp only [createPool, Checked.bind_eq_ok, Checked.pure_eq_ok, requireWithError_eq_ok,
    Store.has_eq_false_iff, exists_const] at h
  obtain ⟨-, -, -, -, -, -, -, -, -, -, -, -, hfree, ⟨hpos, hle⟩, rfl⟩ := h
  exact ⟨hfree, hpos, hle, rfl⟩

theorem poolDeposit_ok {σ : Type} {host : Host σ} {env : Env} {w w' : World σ}
    {depositor : Address} {poolId : Symbol} {token : Address} {amount : Int}
    (h : poolDeposit host env w depositor poolId token amount = .ok w') :
    env.auth depositor = true ∧ 0 < amount ∧
    ∃ pool tokens, w.store.pools.get poolId = some pool ∧ pool.token = token ∧
      pool.balance + amount ≤ I128_MAX ∧
      host.transfer w.tokens token depositor host.self amount = some tokens ∧
      w' = ⟨{ w.store with
        pools := w.store.pools.set poolId { pool with balance := pool.balance + amount } }.publish
          (.poolDeposit depositor poolId amount), tokens⟩ := by
  simp only [poolDeposit, Checked.bind_eq_ok, Checked.pure_eq_ok, requireAuth_eq_ok,
    validateAmount_eq_ok, expect_eq_ok, requireWithError_eq_ok, i128_eq_ok, tokenCall_eq_ok,
    exists_const] at h
  obtain ⟨-, -, -, -, -, -, ⟨hpos, -⟩, hauth, pool, hpool, htoken, -, ⟨⟨-, hmax⟩, rfl⟩, tokens, ht,
    rfl⟩ := h
  exact ⟨hauth, hpos, pool, tokens, hpool, htoken, hmax, ht, rfl⟩

theorem poolWithdrawReceivedAmount_eq {amount : Int} (hmin : I128_MIN ≤ amount)
    (hmax : amount ≤ I128_MAX) : poolWithdrawReceivedAmount amount = .ok amount := by
  have hzero : i128 (amount * POOL_WITHDRAW_FEE_BPS) = .ok 0 := by
    simp only [POOL_WITHDRAW_FEE_BPS, Int.mul_zero]
    decide
  unfold poolWithdrawReceivedAmount
  rw [hzero]
  show i128 (amount - Int.tdiv 0 10000) = .ok amount
  simp only [Int.zero_tdiv, Int.sub_zero]
  exact i128_eq_ok.mpr ⟨⟨hmin, hmax⟩, rfl⟩

theorem poolWithdraw_ok {σ : Type} {host : Host σ} {env : Env} {w w' : World σ}
    {signers : List Address} {poolId : Symbol} {amount : Int} {recipient : Address}
    {minOutAmount : Option Int} {deadline : Option Nat}
    (h : poolWithdraw host env w signers poolId amount recipient minOutAmount deadline = .ok w') :
    0 < amount ∧ ∃ pool tokens, w.store.pools.get poolId = some pool ∧
      requireSigners env pool signers = .ok () ∧ amount ≤ pool.balance ∧
      host.transfer w.tokens pool.token host.self recipient amount = some tokens ∧
      w' = ⟨{ w.store with
        pools := w.store.pools.set poolId { pool with balance := pool.balance - amount } }.publish
          (.poolWithdraw recipient poolId amount), tokens⟩ := by
  simp only [poolWithdraw, Checked.bind_eq_ok, Checked.pure_eq_ok, validateAmount_eq_ok,
    expect_eq_ok, requireWithError_eq_ok, i128_eq_ok, tokenCall_eq_ok, exists_const] at h
  obtain ⟨-, -, -, -, -, -, ⟨hpos, -⟩, -, pool, hpool, _, hsig, hle, -, -, -, -, ⟨-, rfl⟩,
    tokens, ht, rfl⟩ := h
  exact ⟨hpos, pool, tokens, hpool, hsig, hle, ht, rfl⟩

theorem addPoolAdmin_ok {env : Env} {s s' : State} {signers : List Address} {poolId : Symbol}
    {newAdmin : Address} (h : addPoolAdmin env s signers poolId newAdmin = .ok s') :
    ∃ pool, s.pools.get poolId = some pool ∧ requireSigners env pool signers = .ok () ∧
      newAdmin ∉ pool.admins ∧
      s' = { s with
        pools := s.pools.set poolId { pool with admins := pool.admins ++ [newAdmin] } }.publish
          (.poolAdminAdded poolId newAdmin) := by
  simp only [addPoolAdmin, Checked.bind_eq_ok, Checked.pure_eq_ok, expect_eq_ok,
    requireWithError_eq_ok, exists_const] at h
  obtain ⟨-, -, -, -, -, -, pool, hpool, _, hsig, hnew, rfl⟩ := h
  exact ⟨pool, hpool, hsig, hnew, rfl⟩

theorem removePoolAdmin_ok {env : Env} {s s' : State} {signers : List Address} {poolId : Symbol}
    {admin : Address} (h : removePoolAdmin env s signers poolId admin = .ok s') :
    ∃ pool, s.pools.get poolId = some pool ∧ requireSigners env pool signers = .ok () ∧
      pool.threshold ≤ (pool.admins.filter (· ≠ admin)).length ∧
      s' = { s with
        pools := s.pools.set poolId
          { pool with admins := pool.admins.filter (· ≠ admin) } }.publish
            (.poolAdminRemoved poolId admin) := by
  simp only [removePoolAdmin, Checked.bind_eq_ok, Checked.pure_eq_ok, expect_eq_ok,
    requireWithError_eq_ok, exists_const] at h
  obtain ⟨-, -, -, -, -, -, pool, hpool, _, hsig, -, hthr, rfl⟩ := h
  exact ⟨pool, hpool, hsig, hthr, rfl⟩

theorem updatePoolThreshold_ok {env : Env} {s s' : State} {signers : List Address}
    {poolId : Symbol} {threshold : Nat}
    (h : updatePoolThreshold env s signers poolId threshold = .ok s') :
    ∃ pool, s.pools.get poolId = some pool ∧ requireSigners env pool signers = .ok () ∧
      1 ≤ threshold ∧ threshold ≤ pool.admins.length ∧
      s' = { s with pools := s.pools.set poolId { pool with threshold } }.publish
        (.poolThresholdUpdated poolId pool.threshold threshold) := by
  simp only [updatePoolThreshold, Checked.bind_eq_ok, Checked.pure_eq_ok, expect_eq_ok,
    validateU32Range_eq_ok, requireWithError_eq_ok, exists_const] at h
  obtain ⟨-, -, -, -, ⟨hone, -⟩, pool, hpool, _, hsig, hle, rfl⟩ := h
  exact ⟨pool, hpool, hsig, hone, hle, rfl⟩

end Contract
end Linkora
