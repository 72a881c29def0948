import Linkora.Lib.Run
import Linkora.Contract.Ledger

/-!
# The referral contract

`linkora-referral/src/lib.rs`.  A wallet registers one code, another wallet
attributes itself once to the owner of a code, and pays that owner a share of the
first tip it claims a reward for.  The workspace's release profile checks overflow
here as in the main contract.
-/

namespace Linkora
namespace Referral

open Contract (Address Bytes Env Host I128_MAX I128_MIN Panic expect i128 requireAuth
  requireWithError tokenCall)

def DEFAULT_REFERRAL_RATE_BPS : Nat := 1000
def MAX_REFERRAL_RATE_BPS : Nat := 10000
def BPS_DENOMINATOR : Int := 10000
def MIN_CODE_LEN : Nat := 3
def MAX_CODE_LEN : Nat := 32

inductive Event where
  | referralRegistered (user : Address) (code : Bytes) (referred : Address)
  | referralRewardPaid (referrer referred : Address) (tipAmount rewardAmount : Int) (rateBps : Nat)
  | referralRateUpdated (oldRateBps newRateBps : Nat)
  deriving DecidableEq

/-- Instance cells `ADMIN`, `TOKEN`, `RATE` and `INIT`, and the families of `DataKey`. -/
structure State where
  admin : Option Address
  token : Option Address
  rate : Option Nat
  init : Option Bool
  code : Store Bytes Address
  codeOf : Store Address Bytes
  referrer : Store Address Address
  rewarded : Store Address Bool
  events : List Event

def State.empty : State := ⟨none, none, none, none, ∅, ∅, ∅, ∅, []⟩

def State.publish (s : State) (e : Event) : State := { s with events := s.events ++ [e] }

/-- The contract's storage next to the state of the token contracts. -/
structure World (σ : Type) where
  store : State
  tokens : σ

def initializeProgram (env : Env) (s : State) (admin tokenAddress : Address) :
    Except Panic State := do
  requireWithError (s.init.getD false = false) "already initialized"
  requireAuth env admin
  return { s with
    admin := some admin
    token := some tokenAddress
    rate := some DEFAULT_REFERRAL_RATE_BPS
    init := some true }

def validateCode (code : Bytes) : Except Panic Unit := do
  requireWithError (code ≠ []) "code must not be empty"
  requireWithError (MIN_CODE_LEN ≤ code.length ∧ code.length ≤ MAX_CODE_LEN)
    "code must be 3-32 characters"

def registerCode (env : Env) (s : State) (user : Address) (code : Bytes) :
    Except Panic State := do
  requireAuth env user
  validateCode code
  requireWithError (s.code.get code = none) "code already registered"
  requireWithError (s.codeOf.get user = none) "user already registered a code"
  return { s with code := s.code.set code user, codeOf := s.codeOf.set user code }.publish
    (.referralRegistered user code user)

def registerWithCode (env : Env) (s : State) (user : Address) (code : Bytes) :
    Except Panic State := do
  requireAuth env user
  validateCode code
  requireWithError (s.referrer.get user = none) "user already has a referrer"
  let referrer ← expect (s.code.get code) "referral code not found"
  requireWithError (referrer ≠ user) "cannot refer yourself"
  return { s with referrer := s.referrer.set user referrer }.publish
    (.referralRegistered referrer code user)

def referralRewardAmount (tipAmount : Int) (rateBps : Nat) : Except Panic Int := do
  if tipAmount ≤ 0 ∨ rateBps = 0 then return 0
  let product ← i128 (tipAmount * rateBps)
  return product.tdiv BPS_DENOMINATOR

def claimReward {σ : Type} (host : Host σ) (env : Env) (w : World σ) (referred : Address)
    (tipAmount : Int) : Except Panic (World σ) := do
  let s := w.store
  requireAuth env referred
  requireWithError (0 < tipAmount) "tip amount must be positive"
  let referrer ← expect (s.referrer.get referred) "user has no referrer"
  requireWithError ((s.rewarded.get referred).getD false = false) "referral reward already paid"
  let rateBps := s.rate.getD 0
  let rewardAmount ← referralRewardAmount tipAmount rateBps
  requireWithError (0 < rewardAmount) "referral reward is zero"
  let tokenAddress ← expect s.token "called `Option::unwrap()` on a `None` value"
  let tokens ← tokenCall (host.transfer w.tokens tokenAddress referred referrer rewardAmount)
  let s := { s with rewarded := s.rewarded.set referred true }
  return {
    store := s.publish (.referralRewardPaid referrer referred tipAmount rewardAmount rateBps)
    tokens }

def setReferralRate (env : Env) (s : State) (newRateBps : Nat) : Except Panic State := do
  let admin ← expect s.admin "called `Option::unwrap()` on a `None` value"
  requireAuth env admin
  requireWithError (newRateBps ≤ MAX_REFERRAL_RATE_BPS) "referral rate must be at most 10000 bps"
  return { s with rate := some newRateBps }.publish
    (.referralRateUpdated (s.rate.getD 0) newRateBps)

/-! ## The contract as a transition system -/

/-- The entry points that can write.  The others only read. -/
inductive Call where
  | initializeProgram (admin tokenAddress : Address)
  | registerCode (user : Address) (code : Bytes)
  | registerWithCode (user : Address) (code : Bytes)
  | claimReward (referred : Address) (tipAmount : Int)
  | setReferralRate (newRateBps : Nat)
  deriving DecidableEq

variable {σ : Type}

def World.onStore (w : World σ) (r : Except Panic State) : Except Panic (World σ) :=
  r.map fun store => { w with store }

theorem World.onStore_eq_ok {w w' : World σ} {r : Except Panic State} :
    w.onStore r = .ok w' ↔ r = .ok w'.store ∧ w'.tokens = w.tokens := by
  rw [World.onStore, Checked.map_eq_ok]
  constructor
  · rintro ⟨s, hs, rfl⟩
    exact ⟨hs, rfl⟩
  · rintro ⟨hs, ht⟩
    exact ⟨w'.store, hs, by rw [← ht]⟩

def exec (host : Host σ) (env : Env) (w : World σ) : Call → Except Panic (World σ)
  | .initializeProgram admin tokenAddress =>
    w.onStore (initializeProgram env w.store admin tokenAddress)
  | .registerCode user code => w.onStore (registerCode env w.store user code)
  | .registerWithCode user code => w.onStore (registerWithCode env w.store user code)
  | .claimReward referred tipAmount => claimReward host env w referred tipAmount
  | .setReferralRate newRateBps => w.onStore (setReferralRate env w.store newRateBps)

/-- A step: a call that succeeds, or a change of the token contracts that this
contract has no part in. -/
inductive Step (host : Host σ) : World σ → Option Call → World σ → Prop where
  | call {w w' : World σ} {env : Env} {c : Call} :
      exec host env w c = .ok w' → Step host w (some c) w'
  | others {w : World σ} {tokens : σ} :
      host.others w.tokens tokens → Step host w none { w with tokens }

/-! ## What a successful call says -/

theorem initializeProgram_ok {env : Env} {s s' : State} {admin tokenAddress : Address}
    (h : initializeProgram env s admin tokenAddress = .ok s') :
    s' = { s with
      admin := some admin
      token := some tokenAddress
      rate := some DEFAULT_REFERRAL_RATE_BPS
      init := some true } := by
  simp only [initializeProgram, Checked.bind_eq_ok, Checked.pure_eq_ok] at h
  obtain ⟨-, -, -, -, rfl⟩ := h
  rfl

theorem registerCode_ok {env : Env} {s s' : State} {user : Address} {code : Bytes}
    (h : registerCode env s user code = .ok s') :
    s.code.get code = none ∧ s.codeOf.get user = none ∧
      s' = { s with code := s.code.set code user, codeOf := s.codeOf.set user code }.publish
        (.referralRegistered user code user) := by
  simp only [registerCode, Checked.bind_eq_ok, Checked.pure_eq_ok, Contract.requireWithError_eq_ok,
    exists_const] at h
  obtain ⟨-, -, -, -, hcode, hown, rfl⟩ := h
  exact ⟨hcode, hown, rfl⟩

theorem registerWithCode_ok {env : Env} {s s' : State} {user : Address} {code : Bytes}
    (h : registerWithCode env s user code = .ok s') :
    ∃ referrer, s.referrer.get user = none ∧ s.code.get code = some referrer ∧ referrer ≠ user ∧
      s' = { s with referrer := s.referrer.set user referrer }.publish
        (.referralRegistered referrer code user) := by
  simp only [registerWithCode, Checked.bind_eq_ok, Checked.pure_eq_ok,
    Contract.requireWithError_eq_ok, Contract.expect_eq_ok, exists_const] at h
  obtain ⟨-, -, -, -, hnew, referrer, hcode, hne, rfl⟩ := h
  exact ⟨referrer, hnew, hcode, hne, rfl⟩

theorem setReferralRate_ok {env : Env} {s s' : State} {newRateBps : Nat}
    (h : setReferralRate env s newRateBps = .ok s') :
    newRateBps ≤ MAX_REFERRAL_RATE_BPS ∧
      s' = { s with rate := some newRateBps }.publish
        (.referralRateUpdated (s.rate.getD 0) newRateBps) := by
  simp only [setReferralRate, Checked.bind_eq_ok, Checked.pure_eq_ok,
    Contract.requireWithError_eq_ok, exists_const] at h
  obtain ⟨-, -, -, -, hrate, rfl⟩ := h
  exact ⟨hrate, rfl⟩

/-- The reward without the detour through the product: what the share of a tip is. -/
def rewardShare (tipAmount : Int) (rateBps : Nat) : Int := tipAmount * rateBps / 10000

/-- The reward is the share, and it is refused where the product leaves `i128`. -/
theorem referralRewardAmount_eq_ok {tipAmount r : Int} {rateBps : Nat} (htip : 0 < tipAmount) :
    referralRewardAmount tipAmount rateBps = .ok r ↔
      tipAmount * rateBps ≤ I128_MAX ∧ r = rewardShare tipAmount rateBps := by
  have hprod : 0 ≤ tipAmount * rateBps := Int.mul_nonneg htip.le (Int.natCast_nonneg rateBps)
  by_cases hzero : rateBps = 0
  · subst hzero
    simp [referralRewardAmount, rewardShare, I128_MAX, pure, Except.pure, eq_comm]
  · have hmin : I128_MIN ≤ tipAmount * rateBps := le_trans (by decide) hprod
    have hbranch : ¬(tipAmount ≤ 0 ∨ rateBps = 0) := by omega
    simp only [referralRewardAmount, hbranch, if_false, Checked.bind_eq_ok, Checked.pure_eq_ok,
      Contract.i128_eq_ok]
    constructor
    · rintro ⟨product, ⟨⟨-, hmax⟩, rfl⟩, rfl⟩
      exact ⟨hmax, Int.tdiv_eq_ediv_of_nonneg hprod⟩
    · rintro ⟨hmax, rfl⟩
      exact ⟨_, ⟨⟨hmin, hmax⟩, rfl⟩, Int.tdiv_eq_ediv_of_nonneg hprod⟩

/-- What `claim_reward` asks for, and what it does. -/
theorem claimReward_eq_ok {host : Host σ} {env : Env} {w w' : World σ} {referred : Address}
    {tipAmount : Int} :
    claimReward host env w referred tipAmount = .ok w' ↔
      env.auth referred = true ∧ 0 < tipAmount ∧
      (w.store.rewarded.get referred).getD false = false ∧
      tipAmount * (w.store.rate.getD 0) ≤ I128_MAX ∧
      0 < rewardShare tipAmount (w.store.rate.getD 0) ∧
      ∃ referrer token tokens, w.store.referrer.get referred = some referrer ∧
        w.store.token = some token ∧
        host.transfer w.tokens token referred referrer
          (rewardShare tipAmount (w.store.rate.getD 0)) = some tokens ∧
        ({ store := { w.store with rewarded := w.store.rewarded.set referred true }.publish
            (.referralRewardPaid referrer referred tipAmount
              (rewardShare tipAmount (w.store.rate.getD 0)) (w.store.rate.getD 0))
           tokens } : World σ) = w' := by
  simp only [claimReward, Checked.bind_eq_ok, Checked.pure_eq_ok, Contract.requireAuth_eq_ok,
    Contract.requireWithError_eq_ok, Contract.expect_eq_ok, Contract.tokenCall_eq_ok, exists_const]
  constructor
  · rintro ⟨hauth, htip, referrer, hreferrer, hrewarded, r, hr, hpos, token, htoken, tokens,
      htokens, rfl⟩
    obtain ⟨hmax, rfl⟩ := (referralRewardAmount_eq_ok htip).mp hr
    exact ⟨hauth, htip, hrewarded, hmax, hpos, referrer, token, tokens, hreferrer, htoken, htokens,
      rfl⟩
  · rintro ⟨hauth, htip, hrewarded, hmax, hpos, referrer, token, tokens, hreferrer, htoken,
      htokens, rfl⟩
    exact ⟨hauth, htip, referrer, hreferrer, hrewarded, _,
      (referralRewardAmount_eq_ok htip).mpr ⟨hmax, rfl⟩, hpos, token, htoken, tokens, htokens, rfl⟩

end Referral
end Linkora
